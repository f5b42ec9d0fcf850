import Mathlib.Tactic.Choose
import BotScript.Proofs.Activity.Polling

/-!
# What comes of a group that polls

A group whose members go through inquiries succeeds when the last of them has come to its good end,
and then all that was noted down is what the inquiries say. Until then it is a part of that. If
somebody fails, a small group fails with it at once; a large one fails with the first member, by its
place, that does, once all before it have ended. A group never waits for long: up to any time, all
happens that has to.

## Main definitions

* `Inquiry.Partial`, `Inquiry.Underway`: what has been noted down of inquiries that are under way.
* `Inquiry.Completed`: what has been noted down once they have all come to a good end.

## Main results

* `Group.Polls.comes`: what a group that polls comes to.
* `Group.Polls.completed`, `Group.Polls.failed_of_verdict`,
  `Group.Polls.verdict_of_failed`: its verdict.
* `Group.Polls.exists_settled`: it gets to any time.
* `Group.Polls.heard_of_settled`, `Group.Polls.verdict_of_settled`: what has happened by then.
* `Inquiry.Begin.completes`, `Inquiry.Begin.exists_heard`: what comes of clients that
  are asked side by side.
-/

namespace BotScript

open World

variable {σ : Type} {n : Nat} {ι : AnswerKind} {α : Type}

namespace Inquiry

/-! ### What is noted down -/

/-- What may have been noted down of an inquiry that is under way. -/
inductive Partial (q : Inquiry ι) (i : Fin n) : List (Event n) → Prop
  | told {k : Nat} (h : q.Reaches k) : Partial q i (q.heard i k)
  | waiting {k : Nat} (h : q.Reaches k) (hleft : q.left k ≠ []) :
      Partial q i (q.heard i k ++ [q.question i k])
  | failed {k : Nat} {e : ClientError} (h : q.Fails k e) : Partial q i (q.heard i (k + 1))

/-- Some clients are under way with their inquiries since a world, and the others have
been left alone. -/
structure Underway (q : Fin n → Inquiry ι) (clients : List (Fin n)) (w₀ w : World σ n) : Prop where
  noted : ∀ i ∈ clients, ∃ l, (q i).Partial i l ∧ w.talk i = w₀.talk i ++ l
  others : ∀ i, i ∉ clients → SameFor i w w₀
  follows : Follows w w₀

theorem Underway.refl (q : Fin n → Inquiry ι) (clients : List (Fin n)) (w : World σ n) :
    Underway q clients w w where
  noted _ _ := ⟨[], .told reaches_zero, (List.append_nil _).symm⟩
  others i _ := .refl i w
  follows := .refl w

/-- Some clients, which go through some states, have come to the good ends of their inquiries since
a world, the last one just now, and the others have been left alone. -/
structure Completed (q : Fin n → Inquiry ι) (state : Fin n → Nat → σ) (clients : List (Fin n))
    (w₀ w : World σ n) : Prop where
  noted : ∀ i ∈ clients, ∃ k, (q i).Ends k ∧ (q i).asked k ≤ w.now ∧ w.clients.get i = state i k ∧
    w.talk i = w₀.talk i ++ (q i).heard i k
  last : w.now = w₀.now ∨ ∃ i ∈ clients, ∃ k, (q i).Ends k ∧ w.now = (q i).asked k
  others : ∀ i, i ∉ clients → SameFor i w w₀
  follows : Follows w w₀

section Completed

variable {q : Fin n → Inquiry ι} {state : Fin n → Nat → σ} {clients : List (Fin n)}
  {w₀ w : World σ n}

/-- Inquiries that have been completed were under way. -/
theorem Completed.underway (h : Completed q state clients w₀ w) : Underway q clients w₀ w where
  noted i hi := by
    obtain ⟨k, hends, -, -, htalk⟩ := h.noted i hi
    exact ⟨_, .told hends.1, htalk⟩
  others := h.others
  follows := h.follows

/-- The latest of some times, if one of them has come and all of them have. -/
theorem eq_foldr_max {time : Fin n → Nat} {start now : Nat}
    (hstart : start ≤ now) (hle : ∀ i ∈ clients, time i ≤ now)
    (hlast : now = start ∨ ∃ i ∈ clients, now = time i) :
    now = (clients.map time).foldr max start := by
  have hbounds : (clients.map time).foldr max start ≤ now ∧
      start ≤ (clients.map time).foldr max start ∧
      ∀ i ∈ clients, time i ≤ (clients.map time).foldr max start := by
    clear hlast
    induction clients with
    | nil => exact ⟨hstart, Nat.le_refl _, fun i hi => nomatch hi⟩
    | cons j rest ih =>
      obtain ⟨hupper, hlower, htimes⟩ := ih fun i hi => hle i (List.mem_cons_of_mem j hi)
      refine ⟨Nat.max_le.2 ⟨hle j List.mem_cons_self, hupper⟩,
        Nat.le_trans hlower (Nat.le_max_right _ _), ?_⟩
      intro i hi
      rcases List.mem_cons.1 hi with rfl | hi
      · exact Nat.le_max_left _ _
      · exact Nat.le_trans (htimes i hi) (Nat.le_max_right _ _)
  obtain ⟨hupper, hlower, htimes⟩ := hbounds
  refine Nat.le_antisymm ?_ hupper
  rcases hlast with rfl | ⟨i, hi, rfl⟩
  · exact hlower
  · exact htimes i hi

/-- What was noted down of a client, by when its inquiry ends. -/
theorem Completed.talk_eq (h : Completed q state clients w₀ w) {i : Fin n} (hi : i ∈ clients)
    {k : Nat} (hends : (q i).Ends k) : w.talk i = w₀.talk i ++ (q i).heard i k := by
  obtain ⟨l, hl, -, -, htalk⟩ := h.noted i hi
  rw [htalk, hl.unique hends]

/-- The state that a client is left in. -/
theorem Completed.client_eq (h : Completed q state clients w₀ w) {i : Fin n} (hi : i ∈ clients)
    {k : Nat} (hends : (q i).Ends k) : w.clients.get i = state i k := by
  obtain ⟨l, hl, -, hstate, -⟩ := h.noted i hi
  rw [hstate, hl.unique hends]

/-- Inquiries are completed when the last of them ends. -/
theorem Completed.now_eq (h : Completed q state clients w₀ w)
    (hstart : ∀ i ∈ clients, (q i).start = w₀.now) {K : Fin n → Nat}
    (hends : ∀ i ∈ clients, (q i).Ends (K i)) :
    w.now = (clients.map fun i => (q i).asked (K i)).foldr max w₀.now := by
  have hlast : w.now = w₀.now ∨ ∃ i ∈ clients, w.now = (q i).asked (K i) := by
    rcases h.last with hnow | ⟨i, hi, k, hk, hnow⟩
    · exact .inl hnow
    · exact .inr ⟨i, hi, by rw [hnow, hk.unique (hends i hi)]⟩
  refine eq_foldr_max ?_ (fun i hi => ?_) hlast
  · rcases hlast with hnow | ⟨i, hi, hnow⟩
    · exact Nat.le_of_eq hnow.symm
    · rw [hnow, ← hstart i hi]
      exact asked_mono (Nat.zero_le (K i))
  · obtain ⟨k, hk, hle, -⟩ := h.noted i hi
    rw [← hk.unique (hends i hi)]
    exact hle

end Completed

variable {crew : Crew n} {q : Inquiry ι} {state : Nat → σ} {past : List (Event n)} {w : World σ n}
  {i : Fin n} {p k t : Nat} {stage : Stage .nothing}

theorem Stands.exists_partial (h : Stands crew q state past w i p stage) :
    ∃ l, q.Partial i l ∧ w.talk i = past ++ l := by
  cases h with
  | asks hreaches _ _ htalk => exact ⟨_, .told hreaches, htalk⟩
  | waits hreaches hleft _ _ htalk =>
    exact ⟨_, .waiting hreaches (by simp [hleft]), htalk.trans (List.append_assoc _ _ _)⟩
  | unmet hreaches _ _ _ htalk => exact ⟨_, .told hreaches, htalk⟩
  | rests hreaches _ _ htalk => exact ⟨_, .told hreaches, htalk⟩
  | done hends _ _ htalk => exact ⟨_, .told hends.1, htalk⟩
  | failed hfails _ htalk => exact ⟨_, .failed hfails, htalk⟩

/-- A member that has ended well has come to the good end of its inquiry. -/
theorem Stands.of_ended_ok (h : Stands crew q state past w i p (.ended (.ok ()))) :
    ∃ k, q.Ends k ∧ q.asked k ≤ w.now ∧ w.clients.get i = state k ∧
      w.talk i = past ++ q.heard i k := by
  cases h with
  | done hends hle hstate htalk => exact ⟨_, hends, hle, hstate, htalk⟩

/-- A member that has failed has failed with its inquiry. -/
theorem Stands.of_ended_error {f : Fault} (h : Stands crew q state past w i p (.ended (.error f))) :
    ∃ k e, q.Fails k e ∧ f = .client (crew.title i) e ∧ w.talk i = past ++ q.heard i (k + 1) := by
  cases h with
  | failed hfails _ htalk => exact ⟨_, _, hfails, rfl, htalk⟩

/-- A member that can still do something by a time has not asked more than it can by then. -/
theorem Stands.lt_of_canMove (h : Stands crew q state past w i p stage)
    (hmove : Member.canMove crew w ⟨i, stage⟩ = true) {budget : Nat} (ht : w.now ≤ t)
    (hbudget : ∀ k, q.Reaches k → q.asked k ≤ t → k ≤ budget) : p < 4 * budget + 4 := by
  cases h with
  | @asks k hreaches hnow _ _ =>
    have hk := hbudget k hreaches (hnow ▸ ht)
    omega
  | @waits k _ _ hreaches _ hlater _ _ =>
    have hasked : q.asked k ≤ w.now := by
      cases hd : (q.reply k).delay with
      | none => simp [Member.canMove, Reply.due, hd, isDue] at hmove
      | some d =>
        have hdue : q.asked k + d ≤ w.now := by
          simpa [Member.canMove, Reply.due, hd, isDue] using hmove
        omega
    have hk := hbudget k hreaches (Nat.le_trans hasked ht)
    omega
  | @unmet k hreaches _ hnow _ _ =>
    have hk := hbudget k (hreaches.mono (Nat.le_succ k))
      (Nat.le_trans (asked_le_told k) (hnow ▸ ht))
    omega
  | @rests k hreaches _ _ _ =>
    have hdue : q.asked (k + 1) ≤ w.now := of_decide_eq_true hmove
    have hk := hbudget (k + 1) hreaches (Nat.le_trans hdue ht)
    omega
  | done => cases hmove
  | failed => cases hmove

/-! ### What has happened by a time -/

/-- A member that cannot go on up to a time has been told what it can be told by then. -/
theorem Stands.heard_isPrefix (h : Stands crew q state past w i p stage)
    (hcannot : Member.canMove crew w ⟨i, stage⟩ = false)
    (hwake : ∀ s, (Member.mk i stage).wakeAt = some s → t < s) (hreaches : q.Reaches k)
    (ht : ∀ j < k, q.told j ≤ t) : past ++ q.heard i k <+: w.talk i := by
  have hpart : ∀ j, k ≤ j → past ++ q.heard i k <+: past ++ q.heard i j := fun j hj =>
    (List.prefix_append_right_inj past).2 (Inquiry.heard_isPrefix i hj)
  cases h with
  | asks => cases hcannot
  | @waits l _ _ _ _ _ _ htalk =>
    -- If it still had to be told something, it would be due by then.
    have hle : k ≤ l := by
      apply Nat.le_of_not_lt
      intro hlt
      obtain ⟨d, hd⟩ := Option.ne_none_iff_exists'.1 (hreaches l hlt).2.1
      have hdue : (q.reply l).due (q.asked l) = some (q.told l) := by simp [Reply.due, told, hd]
      exact absurd (ht l hlt) (Nat.not_le.2 (hwake _ hdue))
    rw [htalk]
    exact (hpart l hle).trans (List.prefix_append _ _)
  | unmet => cases hcannot
  | @rests l _ _ _ htalk =>
    have hle : k ≤ l + 1 := by
      apply Nat.le_of_not_lt
      intro hlt
      have hasked := hwake _ rfl
      have htold := ht (l + 1) hlt
      have hbetween := q.asked_le_told (l + 1)
      omega
    rw [htalk]
    exact hpart (l + 1) hle
  | done hends _ _ htalk =>
    rw [htalk]
    exact hpart _ (hends.le_of_reaches hreaches)
  | failed hfails _ htalk =>
    rw [htalk]
    exact hpart _ (Nat.le_succ_of_le (hfails.le_of_reaches hreaches))

/-- A member that cannot go on up to the end of its inquiry has ended. -/
theorem Stands.over_of_ends (h : Stands crew q state past w i p stage)
    (hcannot : Member.canMove crew w ⟨i, stage⟩ = false)
    (hwake : ∀ s, (Member.mk i stage).wakeAt = some s → t < s) (hends : q.Ends k)
    (ht : q.asked k ≤ t) : stage = .ended (.ok ()) := by
  cases h with
  | asks => cases hcannot
  | @waits l _ _ hreaches hleft _ _ _ =>
    have hlt : l < k := by
      refine Nat.lt_of_le_of_ne (hends.le_of_reaches hreaches) fun heq => ?_
      rw [heq, hends.2] at hleft
      cases hleft
    obtain ⟨d, hd⟩ := Option.ne_none_iff_exists'.1 (hends.1 l hlt).2.1
    have hdue : (q.reply l).due (q.asked l) = some (q.told l) := by simp [Reply.due, told, hd]
    exact absurd (Nat.le_trans (told_le_asked hlt) ht) (Nat.not_le.2 (hwake _ hdue))
  | unmet => cases hcannot
  | @rests l hreaches _ _ _ =>
    have hasked : q.asked (l + 1) ≤ q.asked k := asked_mono (hends.le_of_reaches hreaches)
    exact absurd (Nat.le_trans hasked ht) (Nat.not_le.2 (hwake _ rfl))
  | done => rfl
  | failed hfails => exact absurd hfails hends.not_fails

/-- A member that cannot go on up to the failure of its inquiry has failed. -/
theorem Stands.failed_of_fails (h : Stands crew q state past w i p stage)
    (hcannot : Member.canMove crew w ⟨i, stage⟩ = false)
    (hwake : ∀ s, (Member.mk i stage).wakeAt = some s → t < s) {e : ClientError}
    (hfails : q.Fails k e) (ht : q.told k ≤ t) :
    stage = .ended (.error (.client (crew.title i) e)) := by
  cases h with
  | asks => cases hcannot
  | @waits l _ _ hreaches _ _ _ _ =>
    have hle := hfails.le_of_reaches hreaches
    have hdelay : (q.reply l).delay ≠ none := by
      rcases Nat.lt_or_eq_of_le hle with hlt | rfl
      · exact (hfails.1 l hlt).2.1
      · exact hfails.2.2.1
    obtain ⟨d, hd⟩ := Option.ne_none_iff_exists'.1 hdelay
    have hdue : (q.reply l).due (q.asked l) = some (q.told l) := by simp [Reply.due, told, hd]
    have htold : q.told l ≤ q.told k := by
      rcases Nat.lt_or_eq_of_le hle with hlt | rfl
      · exact Nat.le_trans (told_le_asked hlt) (asked_le_told k)
      · exact Nat.le_refl _
    exact absurd (Nat.le_trans htold ht) (Nat.not_le.2 (hwake _ hdue))
  | unmet => cases hcannot
  | @rests l hreaches _ _ _ =>
    have hasked : q.asked (l + 1) ≤ q.asked k := asked_mono (hfails.le_of_reaches hreaches)
    exact absurd (Nat.le_trans hasked (Nat.le_trans (asked_le_told k) ht))
      (Nat.not_le.2 (hwake _ rfl))
  | done hends => exact absurd hfails hends.not_fails
  | failed hfails' =>
    obtain ⟨-, rfl⟩ := hfails.unique hfails'
    rfl

end Inquiry

/-! ### Verdicts -/

namespace Group

variable {crew : Crew n} {q : Fin n → Inquiry ι} {state : Fin n → Nat → σ} {clients : List (Fin n)}
  {w₀ w w' : World σ n} {g : Group n .nothing} {p : Fin n → Nat} {i : Fin n} {k t : Nat} {f : Fault}

/-- Every client has a member. -/
theorem Polls.exists_member (h : Polls crew q state clients w₀ p w g) (hi : i ∈ clients) :
    ∃ m ∈ g.members, m.who = i :=
  List.mem_map.1 (h.who_eq.symm ▸ hi)

theorem Polls.underway (h : Polls crew q state clients w₀ p w g) :
    Inquiry.Underway q clients w₀ w where
  noted i hi := by
    obtain ⟨m, hm, rfl⟩ := h.exists_member hi
    exact (h.stands m hm).exists_partial
  others := h.others
  follows := h.follows

/-- A group that has succeeded has completed its inquiries. -/
theorem Polls.completed (h : Polls crew q state clients w₀ p w g)
    {results : List AnswerKind.nothing.Answer} (hverdict : g.verdict = some (.ok results)) :
    Inquiry.Completed q state clients w₀ w where
  noted i hi := by
    obtain ⟨m, hm, rfl⟩ := h.exists_member hi
    obtain ⟨a, hended⟩ := exists_of_forall₂ (verdict_eq_ok_iff.1 hverdict) hm
    have hstands := h.stands m hm
    rw [show m.stage = .ended (.ok a) from hended] at hstands
    exact hstands.of_ended_ok
  last := h.last results hverdict
  others := h.others
  follows := h.follows

/-- A member that has failed has failed with its inquiry. -/
theorem Polls.fails_of_ended (h : Polls crew q state clients w₀ p w g) {m : Member n .nothing}
    (hm : m ∈ g.members) (hended : m.Ended (.error f)) :
    m.who ∈ clients ∧ ∃ k e, (q m.who).Fails k e ∧ f = .client (crew.title m.who) e ∧
      w.talk m.who = w₀.talk m.who ++ (q m.who).heard m.who (k + 1) := by
  refine ⟨h.who_eq ▸ List.mem_map_of_mem hm, ?_⟩
  have hstands := h.stands m hm
  rw [show m.stage = .ended (.error f) from hended] at hstands
  exact hstands.of_ended_error

/-- A group that has failed has failed with the error of a client. -/
theorem Polls.failed_of_verdict (h : Polls crew q state clients w₀ p w g)
    (hverdict : g.verdict = some (.error f)) :
    ∃ i ∈ clients, ∃ k e, (q i).Fails k e ∧ f = .client (crew.title i) e ∧
      w.talk i = w₀.talk i ++ (q i).heard i (k + 1) := by
  obtain ⟨j, m, hm, hended⟩ := exists_failed_of_verdict hverdict
  obtain ⟨hwho, hfails⟩ := h.fails_of_ended (List.mem_of_getElem? hm) hended
  exact ⟨m.who, hwho, hfails⟩

/-- In a small group, the failure of a member is that of the group. -/
theorem Polls.verdict_of_failed (h : Polls crew q state clients w₀ p w g)
    (hsmall : clients.length ≤ smallSize) {m : Member n .nothing} (hm : m ∈ g.members)
    (hended : m.Ended (.error f)) : g.verdict = some (.error f) := by
  have hlength : g.members.length ≤ smallSize := by
    have hsame := congrArg List.length h.who_eq
    rw [List.length_map] at hsame
    omega
  obtain ⟨j, hj⟩ := List.getElem?_of_mem hm
  obtain ⟨e, he⟩ := Group.verdict_of_failed hlength ⟨m, hj, hended⟩
  -- Only one member has failed.
  obtain ⟨j', m', hm', hended'⟩ := exists_failed_of_verdict he
  obtain rfl := h.alone hsmall m hm m' (List.mem_of_getElem? hm') f e hended hended'
  have hsame := hended.symm.trans hended'
  cases hsame
  exact he

/-- Nobody in a group can go on up to a time. -/
def SettledTill (crew : Crew n) (w : World σ n) (g : Group n .nothing) (t : Nat) : Prop :=
  g.next? crew w = none ∧ ∀ s, g.wakeAt = some s → t < s

theorem SettledTill.member (h : SettledTill crew w g t) {m : Member n .nothing}
    (hm : m ∈ g.members) :
    m.canMove crew w = false ∧ ∀ s, m.wakeAt = some s → t < s := by
  obtain ⟨j, hj⟩ := List.getElem?_of_mem hm
  refine ⟨next?_eq_none h.1 hj, fun s hs => ?_⟩
  cases hwake : g.wakeAt with
  | none =>
    rw [wakeAt_eq_none hwake hm] at hs
    cases hs
  | some u => exact Nat.lt_of_lt_of_le (h.2 u hwake) ((wakeAt_eq_some hwake).2 m hm s hs)

/-- A group that is settled up to a time has noted down all that can be told by then. -/
theorem Polls.heard_of_settled (h : Polls crew q state clients w₀ p w g)
    (hsettled : SettledTill crew w g t) (hi : i ∈ clients) (hreaches : (q i).Reaches k)
    (ht : ∀ j < k, (q i).told j ≤ t) : w₀.talk i ++ (q i).heard i k <+: w.talk i := by
  obtain ⟨m, hm, rfl⟩ := h.exists_member hi
  obtain ⟨hcannot, hwake⟩ := hsettled.member hm
  exact (h.stands m hm).heard_isPrefix hcannot hwake hreaches ht

/-- A group that is settled up to the good ends of all its inquiries has succeeded. -/
theorem Polls.verdict_of_settled (h : Polls crew q state clients w₀ p w g)
    (hsettled : SettledTill crew w g t)
    (hends : ∀ i ∈ clients, ∃ k, (q i).Ends k ∧ (q i).asked k ≤ t) :
    ∃ results, g.verdict = some (.ok results) := by
  have hended : ∀ m ∈ g.members, m.Ended (.ok ()) := by
    intro m hm
    obtain ⟨k, hk, ht⟩ := hends m.who (h.who_eq ▸ List.mem_map_of_mem hm)
    obtain ⟨hcannot, hwake⟩ := hsettled.member hm
    exact (h.stands m hm).over_of_ends hcannot hwake hk ht
  refine ⟨g.members.map fun _ => (), verdict_eq_ok_iff.2 ?_⟩
  exact List.forall₂_map_right_iff.2 (List.forall₂_same.2 hended)

/-! ### The course of a run -/

variable [ClientModel σ] {next : List AnswerKind.nothing.Answer → Activity n α} {r' : Running n α}

theorem tick_of_never (hverdict : g.verdict = none) (hnext : g.next? crew w = none)
    (hwake : g.wakeAt = none) :
    Running.tick crew ⟨none, none⟩ w (⟨[], .grouped g next⟩ : Running n α) = .halt (.never w) := by
  simp only [Running.tick_eq, Running.advance, hverdict, hnext, hwake]
  rfl

/-- What one small step makes of a group that polls: it still does, or it has succeeded. -/
theorem Polls.tick (hserves : ∀ i ∈ clients, (q i).Serves (state i)) (hnodup : clients.Nodup)
    (h : Polls crew q state clients w₀ p w g)
    (htick : Running.tick crew ⟨none, none⟩ w ⟨[], .grouped g next⟩ = .on w' r') :
    (∃ p' g', r' = ⟨[], .grouped g' next⟩ ∧ Polls crew q state clients w₀ p' w' g') ∨
      ∃ results, g.verdict = some (.ok results) ∧ w' = w ∧ r' = ⟨[], .going (next results)⟩ := by
  cases hverdict : g.verdict with
  | none =>
    cases hnext : g.next? crew w with
    | some j =>
      rw [tick_of_next hverdict hnext] at htick
      cases htick
      obtain ⟨m, -, -, p', -, hpolls⟩ := h.move hserves hnodup hverdict hnext
      exact .inl ⟨_, _, rfl, hpolls⟩
    | none =>
      cases hwake : g.wakeAt with
      | some t =>
        rw [tick_of_wakeAt hverdict hnext hwake] at htick
        cases htick
        exact .inl ⟨p, _, rfl, (h.wake hverdict hnext hwake).2⟩
      | none =>
        rw [tick_of_never hverdict hnext hwake] at htick
        cases htick
  | some result =>
    cases result with
    | ok results =>
      rw [tick_of_succeeded hverdict] at htick
      cases htick
      exact .inr ⟨results, rfl, rfl, rfl⟩
    | error f =>
      rw [tick_of_failed hverdict] at htick
      cases htick

/-- What a group that polls comes to: it still does, or it has succeeded and what follows has come
to something. -/
theorem Polls.comes (hserves : ∀ i ∈ clients, (q i).Serves (state i)) (hnodup : clients.Nodup)
    (h : Polls crew q state clients w₀ p w g)
    (hcomes : Running.Comes crew ⟨none, none⟩ w ⟨[], .grouped g next⟩ w' r') :
    (∃ p' g', r' = ⟨[], .grouped g' next⟩ ∧ Polls crew q state clients w₀ p' w' g') ∨
      ∃ w₁ results, Inquiry.Completed q state clients w₀ w₁ ∧
        Running.Comes crew ⟨none, none⟩ w₁ ⟨[], .going (next results)⟩ w' r' := by
  induction hcomes with
  | start => exact .inl ⟨p, g, rfl, h⟩
  | tick _ htick ih =>
    rcases ih with ⟨p₁, g₁, rfl, hpolls⟩ | ⟨w₁, results, hcompleted, hcomes⟩
    · rcases hpolls.tick hserves hnodup htick with hstill | ⟨results, hverdict, rfl, rfl⟩
      · exact .inl hstill
      · exact .inr ⟨_, results, hpolls.completed hverdict, .start⟩
    · exact .inr ⟨w₁, results, hcompleted, hcomes.tick htick⟩

/-! ### Getting to a time -/

private theorem budget_lt {B : Fin n → Nat} {more : Nat} (hspent : p i < B i) (hmore : p i < more) :
    ∑ j, (B j - Function.update p i more j) < ∑ j, (B j - p j) := by
  refine Finset.sum_lt_sum (fun j _ => ?_) ⟨i, Finset.mem_univ i, ?_⟩
  · by_cases hne : j = i
    · rw [hne, Function.update_self]
      omega
    · rw [Function.update_of_ne hne]
  · rw [Function.update_self]
    omega

/-- A group of which no member asks for ever up to a time gets to that time, or to a
verdict before. -/
theorem Polls.exists_settled (hserves : ∀ i ∈ clients, (q i).Serves (state i))
    (hnodup : clients.Nodup) {budget : Fin n → Nat}
    (hbudget : ∀ i ∈ clients, ∀ k, (q i).Reaches k → (q i).asked k ≤ t → k ≤ budget i)
    (h : Polls crew q state clients w₀ p w g) (hle : w.now ≤ t) :
    ∃ p' w' g', Running.Comes crew ⟨none, none⟩ w ⟨[], .grouped g next⟩ w' ⟨[], .grouped g' next⟩ ∧
      Polls crew q state clients w₀ p' w' g' ∧ w'.now ≤ t ∧
      (g'.verdict ≠ none ∨ SettledTill crew w' g' t) := by
  -- What is left to be asked up to the time, and the time that is left.
  generalize hleft : ∑ j, (4 * budget j + 4 - p j) + (t - w.now) = left
  induction left using Nat.strongRecOn generalizing p w g with
  | ind left ih =>
    by_cases hverdict : g.verdict = none
    · cases hnext : g.next? crew w with
      | some j =>
        obtain ⟨m, hm, hmove, p', hp', hpolls⟩ := h.move hserves hnodup hverdict hnext
        have hmem := List.mem_of_getElem? hm
        have hwho : m.who ∈ clients := h.who_eq ▸ List.mem_map_of_mem hmem
        have hspent := (h.stands m hmem).lt_of_canMove hmove hle (hbudget m.who hwho)
        have hless : _ < ∑ j, (4 * budget j + 4 - p j) :=
          budget_lt (B := fun j => 4 * budget j + 4) hspent hp'
        have hnow := Group.move_now crew w g j
        obtain ⟨p₁, w₁, g₁, hcomes, hrest⟩ :=
          ih _ (by rw [← hleft, hnow]; omega) hpolls (hnow ▸ hle) rfl
        exact ⟨p₁, w₁, g₁, hcomes.head (tick_of_next hverdict hnext), hrest⟩
      | none =>
        by_cases hwake : ∃ s, g.wakeAt = some s ∧ s ≤ t
        · obtain ⟨s, hs, hst⟩ := hwake
          obtain ⟨hlt, hpolls⟩ := h.wake hverdict hnext hs
          have hnow : (w.atTime s).now = s := Nat.max_eq_right (Nat.le_of_lt hlt)
          obtain ⟨p₁, w₁, g₁, hcomes, hrest⟩ :=
            ih _ (by rw [← hleft, hnow]; omega) hpolls (hnow.symm ▸ hst) rfl
          exact ⟨p₁, w₁, g₁, hcomes.head (tick_of_wakeAt hverdict hnext hs), hrest⟩
        · refine ⟨p, w, g, .start, h, hle, .inr ⟨hnext, fun s hs => ?_⟩⟩
          exact Nat.lt_of_not_le fun hst => hwake ⟨s, hs, hst⟩
    · exact ⟨p, w, g, .start, h, hle, .inl hverdict⟩

end Group

/-! ### From the beginning -/

namespace Running

variable [ClientModel σ] {crew : Crew n} {alarm : Alarm} {w w' w₁ : World σ n}
  {r r' r₁ : Running n α}

/-- What an activity comes to is what it is, or what the next small step makes of it comes to it. -/
theorem Comes.cases_head (h : Comes crew alarm w r w' r') :
    w' = w ∧ r' = r ∨ ∃ w₁ r₁, r.tick crew alarm w = .on w₁ r₁ ∧ Comes crew alarm w₁ r₁ w' r' := by
  induction h with
  | start => exact .inl ⟨rfl, rfl⟩
  | tick _ htick ih =>
    rcases ih with ⟨rfl, rfl⟩ | ⟨w₁, r₁, hfirst, hcomes⟩
    · exact .inr ⟨_, _, htick, .start⟩
    · exact .inr ⟨w₁, r₁, hfirst, hcomes.tick htick⟩

theorem Comes.trans (h : Comes crew alarm w r w₁ r₁) (h' : Comes crew alarm w₁ r₁ w' r') :
    Comes crew alarm w r w' r' := by
  induction h' with
  | start => exact h
  | tick _ htick ih => exact ih.tick htick

end Running

namespace Inquiry

/-- The part of a client in a group: its chain. -/
def chains (q : Fin n → Inquiry ι) (clients : List (Fin n)) : List (Fin n × Chain .nothing) :=
  clients.map fun i => (i, .inquire (q i).call (q i).every (q i).tests)

variable [ClientModel σ] {crew : Crew n} {q : Fin n → Inquiry ι} {clients : List (Fin n)}
  {w w' : World σ n} {next : List AnswerKind.nothing.Answer → Activity n α} {r' : Running n α}

/-- The inquiries of some clients begin in a world, and the clients reply as the inquiries say. -/
structure Begin (q : Fin n → Inquiry ι) (state : Fin n → Nat → σ) (clients : List (Fin n))
    (w : World σ n) : Prop where
  nodup : clients.Nodup
  serves : ∀ i ∈ clients, (q i).Serves (state i)
  now_eq : ∀ i ∈ clients, (q i).start = w.now
  client : ∀ i ∈ clients, w.clients.get i = state i 0

variable {state : Fin n → Nat → σ}

/-- What comes of clients that are asked side by side. -/
theorem Begin.comes (h : Begin q state clients w)
    (hcomes : Running.Comes crew ⟨none, none⟩ w ⟨[],
      .going (.gather (chains q clients) next)⟩ w' r') :
    (w' = w ∧ r' = ⟨[], .going (.gather (chains q clients) next)⟩) ∨
      (∃ p g, r' = ⟨[], .grouped g next⟩ ∧ Group.Polls crew q state clients w p w' g) ∨
      ∃ w₁ results, Completed q state clients w w₁ ∧
        Running.Comes crew ⟨none, none⟩ w₁ ⟨[], .going (next results)⟩ w' r' := by
  rcases hcomes.cases_head with hstart | ⟨w₁, r₁, htick, hcomes⟩
  · exact .inl hstart
  · cases htick
    exact .inr ((Group.polls_start crew w h.now_eq h.client).comes h.serves h.nodup hcomes)

/-- Clients that are asked side by side get to any time, or come to a verdict before, unless someone
can be asked for ever up to that time. -/
theorem Begin.exists_settled (h : Begin q state clients w) (crew : Crew n) {t : Nat}
    (hle : w.now ≤ t) {budget : Fin n → Nat}
    (hbudget : ∀ i ∈ clients, ∀ k, (q i).Reaches k → (q i).asked k ≤ t → k ≤ budget i)
    (next : List AnswerKind.nothing.Answer → Activity n α) :
    ∃ p w' g, Running.Comes crew ⟨none, none⟩ w ⟨[], .going (.gather (chains q clients) next)⟩ w'
        ⟨[], .grouped g next⟩ ∧
      Group.Polls crew q state clients w p w' g ∧
      (g.verdict ≠ none ∨ Group.SettledTill crew w' g t) := by
  obtain ⟨p, w', g, hcomes, hpolls, -, hend⟩ :=
    (Group.polls_start crew w h.now_eq h.client).exists_settled h.serves h.nodup hbudget hle
  exact ⟨p, w', g, hcomes.head rfl, hpolls, hend⟩

/-- There is a time by which some others have come. -/
theorem exists_time (least : Nat) (time : Fin n → Nat) : ∃ t, least ≤ t ∧ ∀ i, time i ≤ t := by
  refine ⟨least + ∑ i, time i, Nat.le_add_right _ _, fun i => ?_⟩
  have hsum := Finset.single_le_sum (f := time) (fun j _ => Nat.zero_le _) (Finset.mem_univ i)
  exact Nat.le_trans hsum (Nat.le_add_left _ _)

/-- Clients that are asked side by side succeed if all their inquiries come to a good end. -/
theorem Begin.completes (h : Begin q state clients w) (crew : Crew n)
    (hends : ∀ i ∈ clients, ∃ k, (q i).Ends k)
    (next : List AnswerKind.nothing.Answer → Activity n α) :
    ∃ w₁ results, Completed q state clients w w₁ ∧
      Running.Comes crew ⟨none, none⟩ w ⟨[], .going (.gather (chains q clients) next)⟩ w₁
        ⟨[], .going (next results)⟩ := by
  choose! K hK using hends
  -- A time by which all have ended.
  obtain ⟨t, hnow, ht⟩ := exists_time w.now fun i => (q i).asked (K i)
  obtain ⟨p, w', g, hcomes, hpolls, hend⟩ :=
    h.exists_settled crew hnow (fun i hi k hk _ => (hK i hi).le_of_reaches hk) next
  obtain ⟨results, hverdict⟩ : ∃ results, g.verdict = some (.ok results) := by
    rcases hend with hdecided | hsettled
    · obtain ⟨result, hresult⟩ := Option.ne_none_iff_exists'.1 hdecided
      cases result with
      | ok results => exact ⟨results, hresult⟩
      | error f =>
        obtain ⟨i, hi, k, e, hfails, -⟩ := hpolls.failed_of_verdict hresult
        exact absurd hfails (hK i hi).not_fails
    · exact hpolls.verdict_of_settled hsettled fun i hi => ⟨K i, hK i hi, ht i⟩
  exact ⟨w', results, hpolls.completed hverdict, hcomes.tick (Group.tick_of_succeeded hverdict)⟩

/-- If unwanted answers are followed by rests and nobody fails, each client is asked as long as its
own inquiry goes, also if that of another one never ends. -/
theorem Begin.exists_heard (h : Begin q state clients w) (crew : Crew n)
    (hevery : ∀ i ∈ clients, 0 < (q i).every) (hfails : ∀ i ∈ clients, ∀ k e, ¬ (q i).Fails k e)
    {i : Fin n} (hi : i ∈ clients) {k : Nat} (hreaches : (q i).Reaches k)
    (next : List AnswerKind.nothing.Answer → Activity n α) :
    ∃ w' r', Running.Comes crew ⟨none, none⟩ w ⟨[],
      .going (.gather (chains q clients) next)⟩ w' r' ∧
      w.talk i ++ (q i).heard i k <+: w'.talk i := by
  have hle : w.now ≤ (q i).asked k := by
    rw [← h.now_eq i hi]
    exact asked_mono (Nat.zero_le k)
  obtain ⟨p, w', g, hcomes, hpolls, hend⟩ := h.exists_settled crew hle
    (fun j hj l hl hasked => le_of_asked_le (hevery j hj) hl hasked) next
  refine ⟨w', _, hcomes, ?_⟩
  rcases hend with hdecided | hsettled
  · obtain ⟨result, hverdict⟩ := Option.ne_none_iff_exists'.1 hdecided
    cases result with
    | ok results =>
      obtain ⟨K, hends, -, -, htalk⟩ := (hpolls.completed hverdict).noted i hi
      rw [htalk]
      exact (List.prefix_append_right_inj _).2 (heard_isPrefix i (hends.le_of_reaches hreaches))
    | error f =>
      obtain ⟨j, hj, l, e, hfailed, -⟩ := hpolls.failed_of_verdict hverdict
      exact absurd hfailed (hfails j hj l e)
  · exact hpolls.heard_of_settled hsettled hi hreaches fun j hj => told_le_asked hj

end Inquiry

end BotScript
