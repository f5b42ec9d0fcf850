import BotScript.Proofs.Activity.Inquiry
import BotScript.Proofs.Activity.Rounds

/-!
# Groups that poll

The members of a group may each go through an inquiry of their own. Whoever has the turn, and
whether or not two of them share the input focus, each of them is asked at the times that its own
inquiry says, and gets the replies that it says. So what has been noted down of a client is at any
time a part of what its inquiry gives, and the group comes to any time at which something is still
to happen.

## Main definitions

* `World.talk`: what has been noted down of a client.
* `Inquiry.Stands`: how far a member has come with its inquiry.
* `Group.Polls`: every member of a group goes through its own inquiry.

## Main results

* `Inquiry.Stands.move`, `Inquiry.Stands.wake`: what one turn, and a lapse of time, do to a member.
* `Group.Polls.move`, `Group.Polls.wake`: what they do to a group.
-/

namespace BotScript

open World

variable {σ : Type} {n : Nat} {ι κ : AnswerKind}

/-! ### What is noted down of a client -/

/-- An event, without whether someone had the input focus. -/
def Event.bare : Event n → Event n
  | .made t who c _ => .made t who c false
  | e => e

namespace World

variable {w : World σ n} {i : Fin n}

/-- What has been noted down of a client, oldest first. -/
def talk (w : World σ n) (i : Fin n) : List (Event n) :=
  (w.history.filter (Event.concerns i)).map Event.bare

theorem talk_record_self {e : Event n} (h : e.concerns i = true) :
    (w.record e).talk i = w.talk i ++ [e.bare] := by
  simp [talk, history, record, List.filter_append, h]

theorem talk_record_other {e : Event n} (h : e.concerns i = false) :
    (w.record e).talk i = w.talk i := by
  simp [talk, history, record, List.filter_append, h]

/-- What has been noted down stays noted down. -/
theorem talk_isPrefix {v : World σ n} (h : w.journal <:+ v.journal) (i : Fin n) :
    w.talk i <+: v.talk i :=
  ((List.reverse_prefix.2 h).filter (Event.concerns i)).map Event.bare

/-- Two worlds are alike for a client that does not need the input focus. -/
structure SameFor (i : Fin n) (v w : World σ n) : Prop where
  client : v.clients.get i = w.clients.get i
  talk_eq : v.talk i = w.talk i

theorem SameFor.refl (i : Fin n) (w : World σ n) : SameFor i w w := ⟨rfl, rfl⟩

theorem SameFor.trans {u v : World σ n} (huv : SameFor i u v) (hvw : SameFor i v w) :
    SameFor i u w :=
  ⟨huv.client.trans hvw.client, huv.talk_eq.trans hvw.talk_eq⟩

theorem sameFor_record (w : World σ n) {e : Event n} (h : e.concerns i = false) :
    SameFor i (w.record e) w := ⟨rfl, talk_record_other h⟩

theorem sameFor_release (i j : Fin n) (w : World σ n) : SameFor i (w.release j) w := ⟨rfl, rfl⟩

theorem sameFor_call [ClientModel σ] (crew : Crew n) {j : Fin n} (h : i ≠ j) (w : World σ n)
    (c : Call ι) : SameFor i (w.call crew j c).2 w := by
  have hother : (j == i) = false := by simpa using fun hji => h hji.symm
  have hagrees : Agrees crew i (w.call crew j c).2 w := agrees_call h w c
  exact ⟨hagrees.client, talk_record_other hother⟩

/-- A call to a client whose reply is known. -/
theorem call_of_reply [ClientModel σ] (crew : Crew n) {c : Call ι} {reply : Reply ι} {s : σ}
    (h : ClientModel.reply w.now c (w.clients.get i) = (reply, s)) :
    (w.call crew i c).1 = reply ∧ (w.call crew i c).2.now = w.now ∧
      (w.call crew i c).2.clients.get i = s ∧
      (w.call crew i c).2.talk i = w.talk i ++ [.made w.now i c false] := by
  refine ⟨by simp only [call, h], rfl, ?_, ?_⟩
  · simp only [call, record, h]
    exact Vector.getElem_set_self i.isLt
  · exact talk_record_self (by simp [Event.concerns])

end World

/-- What a member does leaves other clients as they were. -/
theorem Member.sameFor_move [ClientModel σ] (crew : Crew n) (w : World σ n) {m : Member n κ}
    {i : Fin n} (h : i ≠ m.who) : SameFor i (m.move crew w).2 w := by
  have hother : (m.who == i) = false := by simpa using fun hi => h hi.symm
  unfold Member.move
  split
  · exact ⟨rfl, rfl⟩
  · exact ⟨rfl, rfl⟩
  · exact sameFor_call crew h w _
  · exact .refl i w
  · exact ⟨rfl, rfl⟩
  · exact sameFor_call crew h w _
  · exact sameFor_record w hother
  · exact (sameFor_release i m.who _).trans (sameFor_record w hother)
  · exact .refl i w
  · exact .refl i w
  · exact .refl i w

/-! ### One member -/

namespace Inquiry

/-- How far a member has come with the inquiry of its client, which has some past and goes through
some states. The number says in which order the stages come. -/
inductive Stands (crew : Crew n) (q : Inquiry ι) (state : Nat → σ) (past : List (Event n))
    (w : World σ n) (i : Fin n) : Nat → Stage .nothing → Prop
  /-- It is about to ask, or to end. -/
  | asks {k : Nat} (hreaches : q.Reaches k) (hnow : w.now = q.asked k)
      (hstate : w.clients.get i = state k) (htalk : w.talk i = past ++ q.heard i k) :
      Stands crew q state past w i (4 * k) (.ready (.inquire q.call q.every (q.left k)))
  /-- It waits for an answer. -/
  | waits {k : Nat} {test : ι.Answer → Bool} {tests : List (ι.Answer → Bool)}
      (hreaches : q.Reaches k)
      (hleft : q.left k = test :: tests) (hlater : (q.reply k).delay ≠ none → w.now ≤ q.told k)
      (hstate : w.clients.get i = state (k + 1))
      (htalk : w.talk i = past ++ q.heard i k ++ [q.question i k]) :
      Stands crew q state past w i (4 * k + 1)
        (.calling q.call ((q.reply k).due (q.asked k)) (q.reply k).result fun a =>
          if test a then .inquire q.call q.every tests
          else .rest q.every (.inquire q.call q.every (test :: tests)))
  /-- It has got an answer that does not do. -/
  | unmet {k : Nat} (hreaches : q.Reaches (k + 1)) (hrest : q.rest k = q.every)
      (hnow : w.now = q.told k)
      (hstate : w.clients.get i = state (k + 1)) (htalk : w.talk i = past ++ q.heard i (k + 1)) :
      Stands crew q state past w i (4 * k + 2)
        (.ready (.rest q.every (.inquire q.call q.every (q.left (k + 1)))))
  | rests {k : Nat} (hreaches : q.Reaches (k + 1)) (hlater : w.now ≤ q.asked (k + 1))
      (hstate : w.clients.get i = state (k + 1)) (htalk : w.talk i = past ++ q.heard i (k + 1)) :
      Stands crew q state past w i (4 * k + 3)
        (.resting (q.asked (k + 1)) (.inquire q.call q.every (q.left (k + 1))))
  | done {k : Nat} (hends : q.Ends k) (hle : q.asked k ≤ w.now) (hstate : w.clients.get i = state k)
      (htalk : w.talk i = past ++ q.heard i k) :
      Stands crew q state past w i (4 * k + 1) (.ended (.ok ()))
  | failed {k : Nat} {e : ClientError} (hfails : q.Fails k e) (hle : q.told k ≤ w.now)
      (htalk : w.talk i = past ++ q.heard i (k + 1)) :
      Stands crew q state past w i (4 * k + 2) (.ended (.error (.client (crew.title i) e)))

variable {crew : Crew n} {q : Inquiry ι} {state : Nat → σ} {past : List (Event n)} {v w : World σ n}
  {i : Fin n} {p : Nat} {stage : Stage .nothing}

/-- How far a member has come does not depend on other clients. -/
theorem Stands.congr (h : Stands crew q state past w i p stage) (hsame : SameFor i v w)
    (hnow : v.now = w.now) : Stands crew q state past v i p stage := by
  have htalk := hsame.talk_eq
  have hclient := hsame.client
  cases h with
  | asks hreaches hat hstate ht =>
    exact .asks hreaches (hnow.trans hat) (hclient.trans hstate) (htalk.trans ht)
  | waits hreaches hleft hlater hstate ht =>
    exact .waits hreaches hleft (hnow ▸ hlater) (hclient.trans hstate) (htalk.trans ht)
  | unmet hreaches hrest hat hstate ht =>
    exact .unmet hreaches hrest (hnow.trans hat) (hclient.trans hstate) (htalk.trans ht)
  | rests hreaches hlater hstate ht =>
    exact .rests hreaches (hnow ▸ hlater) (hclient.trans hstate) (htalk.trans ht)
  | done hends hle hstate ht =>
    exact .done hends (hnow ▸ hle) (hclient.trans hstate) (htalk.trans ht)
  | failed hfails hle ht => exact .failed hfails (hnow ▸ hle) (htalk.trans ht)

/-- When time passes that a member has to wait anyway, it stands where it stood. -/
theorem Stands.wake (h : Stands crew q state past w i p stage) {t : Nat}
    (hcannot : Member.canMove crew w ⟨i, stage⟩ = false)
    (hwake : ∀ s, (Member.mk i stage).wakeAt = some s → t ≤ s) (hlt : w.now < t) :
    Stands crew q state past (w.atTime t) i p stage := by
  have hnow : (w.atTime t).now = t := Nat.max_eq_right (Nat.le_of_lt hlt)
  cases h with
  | asks => cases hcannot
  | @waits k test tests hreaches hleft hlater hstate ht =>
    refine .waits hreaches hleft (fun hdelay => ?_) hstate ht
    obtain ⟨d, hd⟩ := Option.ne_none_iff_exists'.1 hdelay
    rw [hnow]
    have hdue : (q.reply k).due (q.asked k) = some (q.told k) := by simp [Reply.due, told, hd]
    exact hwake _ hdue
  | unmet => cases hcannot
  | rests hreaches hlater hstate ht =>
    refine .rests hreaches ?_ hstate ht
    rw [hnow]
    exact hwake _ rfl
  | done hends hle hstate ht => exact .done hends (Nat.le_trans hle (Nat.le_max_left _ _)) hstate ht
  | failed hfails hle ht => exact .failed hfails (Nat.le_trans hle (Nat.le_max_left _ _)) ht

variable [ClientModel σ]

/-- A member that can go on comes farther, at the same time. -/
theorem Stands.move (hserves : q.Serves state) (h : Stands crew q state past w i p stage)
    (hmove : Member.canMove crew w ⟨i, stage⟩ = true) :
    ∃ p' > p, Stands crew q state past (Member.move crew w ⟨i, stage⟩).2 i p'
      (Member.move crew w ⟨i, stage⟩).1.stage := by
  cases h with
  | @asks k hreaches hnow hstate htalk =>
    cases hleft : q.left k with
    | nil =>
      -- No condition is left: the member ends.
      exact ⟨4 * k + 1, Nat.lt_succ_self _,
        .done ⟨hreaches, hleft⟩ (Nat.le_of_eq hnow.symm) hstate htalk⟩
    | cons test tests =>
      have hreply := hserves k hreaches (by simp [hleft])
      rw [← hnow, ← hstate] at hreply
      obtain ⟨hresult, hat, hafter, hnoted⟩ := call_of_reply crew hreply
      refine ⟨4 * k + 1, Nat.lt_succ_self _, ?_⟩
      change Stands crew q state past (w.call crew i q.call).2 i (4 * k + 1)
        (.calling q.call ((w.call crew i q.call).1.due w.now) (w.call crew i q.call).1.result _)
      rw [hresult, hnow]
      refine .waits hreaches hleft (fun _ => ?_) hafter ?_
      · rw [hat, hnow]
        exact asked_le_told k
      · rw [hnoted, htalk, hnow]
        rfl
  | @waits k test tests hreaches hleft hlater hstate htalk =>
    have hne : q.left k ≠ [] := by simp [hleft]
    -- The reply is due just now.
    obtain ⟨d, hdelay, hle⟩ : ∃ d, (q.reply k).delay = some d ∧ q.asked k + d ≤ w.now := by
      cases hd : (q.reply k).delay with
      | none => simp [Member.canMove, Reply.due, hd, isDue] at hmove
      | some d => exact ⟨d, rfl, by simpa [Member.canMove, Reply.due, hd, isDue] using hmove⟩
    have hsome : (q.reply k).delay ≠ none := by simp [hdelay]
    have htold : q.told k = q.asked k + d := by simp [told, hdelay]
    have hnow : w.now = q.told k := Nat.le_antisymm (hlater hsome) (htold ▸ hle)
    have hheard : ∀ e, q.response i k = e → e.bare = e → e.concerns i = true →
        (w.record e).talk i = past ++ q.heard i (k + 1) := by
      intro e he hbare hconcerns
      rw [talk_record_self hconcerns, htalk, heard_succ, he, hbare]
      simp
    cases hresult : (q.reply k).result with
    | ok a =>
      have hreach := hreaches.succ hne hsome hresult
      have hnoted : (w.answered i q.call a).talk i = past ++ q.heard i (k + 1) :=
        hheard _ (by simp [response, hresult, hnow]) rfl (by simp [Event.concerns])
      cases htest : test a with
      | true =>
        refine ⟨4 * (k + 1), by omega, ?_⟩
        have hasks : Stands crew q state past (w.answered i q.call a) i (4 * (k + 1))
            (.ready (.inquire q.call q.every (q.left (k + 1)))) := by
          refine .asks hreach ?_ hstate hnoted
          rw [asked_succ, rest_of_met hleft hresult htest]
          exact hnow
        rw [left_succ_of_met hleft hresult htest] at hasks
        simpa only [Member.move, htest, if_true] using hasks
      | false =>
        refine ⟨4 * k + 2, by omega, ?_⟩
        have hunmet : Stands crew q state past (w.answered i q.call a) i (4 * k + 2)
            (.ready (.rest q.every (.inquire q.call q.every (q.left (k + 1))))) :=
          .unmet hreach (rest_of_unmet hleft hresult htest) hnow hstate hnoted
        rw [left_succ_of_unmet hleft hresult htest] at hunmet
        simpa only [Member.move, htest, Bool.false_eq_true, if_false] using hunmet
    | error e =>
      have hnoted : (w.failed i q.call e).talk i = past ++ q.heard i (k + 1) :=
        hheard _ (by simp [response, hresult, hnow]) rfl (by simp [Event.concerns])
      exact ⟨4 * k + 2, by omega,
        .failed ⟨hreaches, hne, hsome, hresult⟩ (Nat.le_of_eq hnow.symm) hnoted⟩
  | @unmet k hreaches hrest hnow hstate htalk =>
    refine ⟨4 * k + 3, Nat.lt_succ_self _, ?_⟩
    have hdue : w.now + q.every = q.asked (k + 1) := by rw [asked_succ, hrest, hnow]
    change Stands crew q state past w i (4 * k + 3) (.resting (w.now + q.every) _)
    rw [hdue]
    exact .rests hreaches (hdue ▸ Nat.le_add_right _ _) hstate htalk
  | @rests k hreaches hlater hstate htalk =>
    have hnow : w.now = q.asked (k + 1) := Nat.le_antisymm hlater (of_decide_eq_true hmove)
    exact ⟨4 * (k + 1), by omega, .asks hreaches hnow hstate htalk⟩
  | done => cases hmove
  | failed => cases hmove

/-- A member that comes to a good end has met its last condition just now. -/
theorem Stands.now_of_ended (h : Stands crew q state past w i p stage)
    (hended : (Member.move crew w ⟨i, stage⟩).1.stage = .ended (.ok ()))
    (hmove : Member.canMove crew w ⟨i, stage⟩ = true) : ∃ k, q.Ends k ∧ w.now = q.asked k := by
  cases h with
  | @asks k hreaches hnow hstate htalk =>
    cases hleft : q.left k with
    | nil => exact ⟨k, ⟨hreaches, hleft⟩, hnow⟩
    | cons test tests =>
      rw [hleft] at hended
      cases hended
  | @waits k test tests hreaches hleft hlater hstate htalk =>
    cases hresult : (q.reply k).result with
    | ok a =>
      rw [hresult] at hended
      cases hended
    | error e =>
      rw [hresult] at hended
      cases hended
  | unmet => cases hended
  | rests => cases hended
  | done => cases hmove
  | failed => cases hmove

end Inquiry

/-! ### The whole group -/

namespace Group

variable {crew : Crew n} {q : Fin n → Inquiry ι} {state : Fin n → Nat → σ} {clients : List (Fin n)}
  {w₀ w : World σ n} {g : Group n .nothing} {p : Fin n → Nat} {i t : Nat}

/-- Every member of a group that began in a world goes through the inquiry of its client, and other
clients are left alone. In a small group nobody goes on once somebody has failed. A group succeeds
when the last member meets its last condition. -/
structure Polls (crew : Crew n) (q : Fin n → Inquiry ι) (state : Fin n → Nat → σ)
    (clients : List (Fin n)) (w₀ : World σ n) (p : Fin n → Nat) (w : World σ n)
    (g : Group n .nothing) :
    Prop where
  who_eq : g.members.map Member.who = clients
  stands : ∀ m ∈ g.members,
    (q m.who).Stands crew (state m.who) (w₀.talk m.who) w m.who (p m.who) m.stage
  others : ∀ i, i ∉ clients → SameFor i w w₀
  alone : clients.length ≤ smallSize → ∀ m ∈ g.members, ∀ m' ∈ g.members, ∀ f f',
    m.Ended (.error f) → m'.Ended (.error f') → m = m'
  last : ∀ results, g.verdict = some (.ok results) →
    w.now = w₀.now ∨ ∃ i ∈ clients, ∃ k, (q i).Ends k ∧ w.now = (q i).asked k
  follows : Follows w w₀

/-- Whose turn it is can go on. -/
theorem canMove_of_next? {g : Group n κ} (h : g.next? crew w = some i) :
    ∃ m, g.members[i]? = some m ∧ m.canMove crew w = true := by
  unfold next? at h
  cases hfirst : firstFrom crew w g.cursor g.members with
  | some j =>
    rw [hfirst] at h
    cases h
    exact (firstFrom_eq_some hfirst).2.1
  | none =>
    rw [hfirst] at h
    exact (firstFrom_eq_some h).2.1

/-- A group that begins. -/
theorem polls_start (crew : Crew n) (w : World σ n) (hstart : ∀ i ∈ clients, (q i).start = w.now)
    (hstate : ∀ i ∈ clients, w.clients.get i = state i 0) :
    Polls crew q state clients w (fun _ => 0) w
      (ofChains (clients.map fun i => (i, .inquire (q i).call (q i).every (q i).tests))) where
  who_eq := by simp [ofChains, Function.comp_def]
  stands := by
    intro m hm
    simp only [ofChains, List.map_map, List.mem_map, Function.comp_apply] at hm
    obtain ⟨i, hi, rfl⟩ := hm
    exact .asks Inquiry.reaches_zero (hstart i hi).symm (hstate i hi) (by simp)
  others i _ := .refl i w
  alone _ m hm m' _ f f' hended := by
    simp only [ofChains, List.map_map, List.mem_map, Function.comp_apply] at hm
    obtain ⟨i, -, rfl⟩ := hm
    cases hended
  last _ _ := .inl rfl
  follows := .refl w

/-- Nobody has failed in a small group without a verdict. -/
theorem not_failed_of_verdict {g : Group n κ} (hsmall : g.members.length ≤ smallSize)
    (hverdict : g.verdict = none) {m : Member n κ} (hm : m ∈ g.members) (f : Fault) :
    ¬ m.Ended (.error f) := by
  intro hended
  obtain ⟨j, hj⟩ := List.getElem?_of_mem hm
  obtain ⟨e, he⟩ := verdict_of_failed hsmall ⟨m, hj, hended⟩
  rw [hverdict] at he
  cases he

/-- When time passes because nobody can go on, everyone stands where it stood. -/
theorem Polls.wake (h : Polls crew q state clients w₀ p w g) (hverdict : g.verdict = none)
    (hnext : g.next? crew w = none) (hwake : g.wakeAt = some t) :
    w.now < t ∧ Polls crew q state clients w₀ p (w.atTime t) ⟨g.members, 0⟩ := by
  obtain ⟨⟨m, hm, hdue⟩, hfirst⟩ := wakeAt_eq_some hwake
  have hcannot : ∀ m ∈ g.members, m.canMove crew w = false := by
    intro m hm
    obtain ⟨j, hj⟩ := List.getElem?_of_mem hm
    exact next?_eq_none hnext hj
  have hlt : w.now < t := by
    have hwaits := hcannot m hm
    rw [Member.canMove_of_wakeAt hdue] at hwaits
    simpa using hwaits
  refine ⟨hlt, h.who_eq, fun m hm => ?_, fun i hi => ?_, h.alone, fun results hdecided => ?_,
    (follows_atTime w t).trans h.follows⟩
  · exact (h.stands m hm).wake (hcannot m hm) (hfirst m hm) hlt
  · exact ⟨(h.others i hi).client, (h.others i hi).talk_eq⟩
  · cases hverdict.symm.trans hdecided

variable [ClientModel σ]

/-- After a turn, everyone stands where its own inquiry says, and somebody has come farther. -/
theorem Polls.move (hserves : ∀ i ∈ clients, (q i).Serves (state i)) (hnodup : clients.Nodup)
    (h : Polls crew q state clients w₀ p w g) (hverdict : g.verdict = none)
    (hnext : g.next? crew w = some i) :
    ∃ m, g.members[i]? = some m ∧ m.canMove crew w = true ∧ ∃ p' > p m.who,
      Polls crew q state clients w₀ (Function.update p m.who p') (g.move crew w i).2
        (g.move crew w i).1 := by
  obtain ⟨m, hm, hmove⟩ := canMove_of_next? hnext
  have hmem := List.mem_of_getElem? hm
  have hwho : m.who ∈ clients := h.who_eq ▸ List.mem_map_of_mem hmem
  obtain ⟨p', hp', hstands⟩ := (h.stands m hmem).move (hserves m.who hwho) hmove
  refine ⟨m, hm, hmove, p', hp', ?_⟩
  have hturn : g.move crew w i = (⟨g.members.set i (m.move crew w).1, i⟩, (m.move crew w).2) := by
    rw [Group.move, hm]
  have hi : i < g.members.length := (List.getElem?_eq_some_iff.1 hm).1
  -- A member of the new group is the one that moved, or another one with another client.
  have hcases : ∀ m' ∈ g.members.set i (m.move crew w).1,
      m' = (m.move crew w).1 ∨ m' ∈ g.members ∧ m'.who ≠ m.who := by
    intro m' hm'
    obtain ⟨j, hj⟩ := List.getElem?_of_mem hm'
    by_cases hij : j = i
    · subst hij
      rw [List.getElem?_set_self hi] at hj
      cases hj
      exact .inl rfl
    · rw [List.getElem?_set_ne (Ne.symm hij)] at hj
      refine .inr ⟨List.mem_of_getElem? hj, fun hsame => hij ?_⟩
      have hnodup' : (g.members.map Member.who).Nodup := h.who_eq.symm ▸ hnodup
      have hlt : i < (g.members.map Member.who).length := by simpa using hi
      refine ((List.getElem?_inj hlt hnodup').1 ?_).symm
      rw [List.getElem?_map, List.getElem?_map, hm, hj, Option.map_some, Option.map_some, hsame]
  rw [hturn]
  refine ⟨?_, ?_, ?_, ?_, ?_, (m.move_follows crew w).trans h.follows⟩
  · have hsame := Group.map_who_move crew w g i
    rw [hturn] at hsame
    exact hsame.trans h.who_eq
  · intro m' hm'
    rcases hcases m' hm' with rfl | ⟨hm', hne⟩
    · rw [Member.move_who, Function.update_self]
      exact hstands
    · rw [Function.update_of_ne hne]
      exact (h.stands m' hm').congr (Member.sameFor_move crew w hne) (Member.move_now crew w m)
  · intro j hj
    have hne : j ≠ m.who := fun hjm => hj (hjm ▸ hwho)
    exact (Member.sameFor_move crew w hne).trans (h.others j hj)
  · intro hsmall m₁ hm₁ m₂ hm₂ f f' hf hf'
    have hlength : g.members.length ≤ smallSize := by
      rw [← h.who_eq] at hsmall
      simpa using hsmall
    rcases hcases m₁ hm₁ with rfl | ⟨hm₁, -⟩
    · rcases hcases m₂ hm₂ with rfl | ⟨hm₂, -⟩
      · rfl
      · exact absurd hf' (not_failed_of_verdict hlength hverdict hm₂ f')
    · exact absurd hf (not_failed_of_verdict hlength hverdict hm₁ f)
  · intro results hdecided
    -- Everyone has ended well, and so has the one that moved.
    obtain ⟨a, hended⟩ := exists_of_forall₂ (verdict_eq_ok_iff.1 hdecided)
      (List.mem_set hi (m.move crew w).1)
    obtain ⟨k, hends, hnow⟩ := (h.stands m hmem).now_of_ended hended hmove
    exact .inr ⟨m.who, hwho, k, hends, (Member.move_now crew w m).trans hnow⟩

end Group

end BotScript
