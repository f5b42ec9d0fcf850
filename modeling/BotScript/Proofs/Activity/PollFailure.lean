import Mathlib.Tactic.ByContra
import BotScript.Proofs.Activity.PollOutcome

/-!
# Groups that poll and fail

Everything that happens while some clients go through inquiries is about the calls of these
inquiries, and nothing fails if they all come to a good end. When a client fails, a small group
fails with it. A large one fails with the first client, by its place, that does, once all before it
have come to a good end; so its failure may have to wait, even for ever. What a group still waits
for is dropped when it fails.

## Main definitions

* `World.since`: what has happened since a world.
* `World.GivesUp`: calls have been dropped, and nothing else has happened.
* `Inquiry.Breaks`: the failure of a client ends the inquiries of all of them.

## Main results

* `Inquiry.Underway.call?_eq`, `Inquiry.Completed.not_isFailure`: what happens on the way.
* `Group.Polls.halts`: how a group that polls comes to its end without success.
* `Group.Polls.tick_of_failure`: in a small group, a failure ends it at once.
* `Inquiry.Begin.fails_first`: a large group whose first failure is not waited for in vain.
-/

namespace BotScript

open World

variable {σ : Type} {n : Nat} {ι κ : AnswerKind} {α : Type}

/-! ### What has happened since -/

namespace Event

/-- The call that an event is about. -/
def call? : Event n → Option (Sigma Call)
  | .made _ _ c _ => some ⟨_, c⟩
  | .answered _ _ c _ => some ⟨_, c⟩
  | .failed _ _ c _ => some ⟨_, c⟩
  | .dropped _ _ c => some ⟨_, c⟩
  | .line _ => none

/-- Whether a call has failed. -/
def isFailure : Event n → Bool
  | .failed .. => true
  | _ => false

/-- Whether a call has been dropped. -/
def isDrop : Event n → Bool
  | .dropped .. => true
  | _ => false

@[simp] theorem call?_bare (e : Event n) : e.bare.call? = e.call? := by
  cases e <;> rfl

@[simp] theorem isFailure_bare (e : Event n) : e.bare.isFailure = e.isFailure := by
  cases e <;> rfl

/-- What is not a line concerns a client. -/
theorem exists_concerns {e : Event n} (h : e.line? = none) : ∃ i, e.concerns i = true := by
  cases e with
  | made _ who | answered _ who | failed _ who | dropped _ who => exact ⟨who, by simp [concerns]⟩
  | line text => cases h

end Event

namespace World

variable {u v w : World σ n}

/-- What has happened since a world, oldest first. -/
def since (w v : World σ n) : List (Event n) := v.history.drop w.history.length

theorem since_of_history {events : List (Event n)} (h : v.history = w.history ++ events) :
    w.since v = events := by
  rw [since, h, List.drop_left]

theorem Follows.history_eq (h : Follows v w) : v.history = w.history ++ w.since v := by
  obtain ⟨events, hjournal, -⟩ := h
  have hhistory : v.history = w.history ++ events.reverse := by
    rw [history, hjournal, List.reverse_append]
    rfl
  rw [since_of_history hhistory, hhistory]

theorem Follows.since_append (h : Follows v w) (h' : Follows u v) :
    w.since u = w.since v ++ v.since u := by
  apply since_of_history
  rw [h'.history_eq, h.history_eq, List.append_assoc]

theorem Follows.mem_since (h : Follows v w) (h' : Follows u v) {e : Event n} :
    e ∈ w.since u ↔ e ∈ w.since v ∨ e ∈ v.since u := by
  rw [h.since_append h', List.mem_append]

theorem Follows.since_record (h : Follows v w) (e : Event n) :
    w.since (v.record e) = w.since v ++ [e] := by
  apply since_of_history
  rw [← List.append_assoc, ← h.history_eq]
  exact List.reverse_cons

theorem Follows.line?_of_since (h : Follows v w) {e : Event n} (he : e ∈ w.since v) :
    e.line? = none := by
  obtain ⟨events, hjournal, hlines⟩ := h
  have hhistory : v.history = w.history ++ events.reverse := by
    rw [history, hjournal, List.reverse_append]
    rfl
  rw [since_of_history hhistory] at he
  exact hlines e (List.mem_reverse.1 he)

/-- What has happened to a client since a world has been noted down of it. -/
theorem Follows.bare_mem (h : Follows v w) {e : Event n} (he : e ∈ w.since v) {i : Fin n}
    (hi : e.concerns i = true) {l : List (Event n)} (htalk : v.talk i = w.talk i ++ l) :
    e.bare ∈ l := by
  have hnew : v.talk i = w.talk i ++ ((w.since v).filter (Event.concerns i)).map Event.bare := by
    rw [talk, h.history_eq, List.filter_append, List.map_append]
    rfl
  rw [← List.append_cancel_left (hnew.symm.trans htalk)]
  exact List.mem_map_of_mem (List.mem_filter.2 ⟨he, hi⟩)

/-- In a world, calls have been dropped since another one, and nothing else has happened. -/
structure GivesUp (v w : World σ n) : Prop where
  now_eq : v.now = w.now
  follows : Follows v w
  drops : ∀ e ∈ w.since v, e.isDrop = true

theorem GivesUp.refl (w : World σ n) : GivesUp w w where
  now_eq := rfl
  follows := .refl w
  drops e he := by
    rw [since_of_history (List.append_nil w.history).symm] at he
    cases he

theorem GivesUp.trans (h : GivesUp u v) (h' : GivesUp v w) : GivesUp u w where
  now_eq := h.now_eq.trans h'.now_eq
  follows := h.follows.trans h'.follows
  drops e he := by
    rcases (h'.follows.mem_since h.follows).1 he with he | he
    · exact h'.drops e he
    · exact h.drops e he

end World

/-- A group that is given up drops what it waits for. -/
theorem Group.drop_givesUp (w : World σ n) (members : List (Member n κ)) :
    GivesUp (Group.drop w members) w := by
  induction members generalizing w with
  | nil => exact .refl w
  | cons m rest ih =>
    refine (ih (m.drop w)).trans ?_
    obtain ⟨who, stage⟩ := m
    cases stage with
    | calling c due result next =>
      have hsince : w.since (Member.drop w ⟨who, .calling c due result next⟩) =
          [.dropped w.now who c] :=
        since_of_history (by simp [Member.drop, dropped, record, release, history])
      refine ⟨rfl, Member.drop_follows w _, fun e he => ?_⟩
      rw [hsince] at he
      rw [List.mem_singleton.1 he]
      rfl
    | ready | resting | queued | ended =>
      exact ⟨rfl, Member.drop_follows w _, (GivesUp.refl w).drops⟩

/-! ### What happens during inquiries -/

namespace Inquiry

section

variable {q : Inquiry ι} {i : Fin n} {k : Nat} {e : Event n} {l : List (Event n)}

theorem call?_of_mem_heard (he : e ∈ q.heard i k) : e.call? = some ⟨ι, q.call⟩ := by
  obtain ⟨j, -, hj⟩ := List.mem_flatMap.1 he
  rcases List.mem_pair.1 hj with rfl | rfl
  · rfl
  · rw [response]
    cases (q.reply j).result <;> rfl

theorem Reaches.not_isFailure (h : q.Reaches k) (he : e ∈ q.heard i k) : e.isFailure = false := by
  obtain ⟨j, hj, hmem⟩ := List.mem_flatMap.1 he
  rcases List.mem_pair.1 hmem with rfl | rfl
  · rfl
  · obtain ⟨-, -, a, ha⟩ := h j (List.mem_range.1 hj)
    rw [response, ha]
    rfl

theorem Partial.call?_eq (h : q.Partial i l) (he : e ∈ l) : e.call? = some ⟨ι, q.call⟩ := by
  cases h with
  | told => exact call?_of_mem_heard he
  | waiting =>
    rcases List.mem_append.1 he with he | he
    · exact call?_of_mem_heard he
    · rw [List.mem_singleton.1 he]
      rfl
  | failed => exact call?_of_mem_heard he

end

variable {q : Fin n → Inquiry ι} {state : Fin n → Nat → σ} {clients : List (Fin n)}
  {w₀ w : World σ n} {e : Event n}

/-- While inquiries are under way, everything that happens is about their calls. -/
theorem Underway.call?_eq (h : Underway q clients w₀ w) {c : Call ι} (hc : ∀ i, (q i).call = c)
    (he : e ∈ w₀.since w) : e.call? = some ⟨ι, c⟩ := by
  obtain ⟨i, hi⟩ := Event.exists_concerns (h.follows.line?_of_since he)
  by_cases hmem : i ∈ clients
  · obtain ⟨l, hpart, htalk⟩ := h.noted i hmem
    have hbare := hpart.call?_eq (h.follows.bare_mem he hi htalk)
    rw [Event.call?_bare, hc] at hbare
    exact hbare
  · have hnothing := h.follows.bare_mem he hi
      ((h.others i hmem).talk_eq.trans (List.append_nil _).symm)
    cases hnothing

/-- Nothing has failed if all inquiries have come to a good end. -/
theorem Completed.not_isFailure (h : Completed q state clients w₀ w) (he : e ∈ w₀.since w) :
    e.isFailure = false := by
  obtain ⟨i, hi⟩ := Event.exists_concerns (h.follows.line?_of_since he)
  by_cases hmem : i ∈ clients
  · obtain ⟨k, hends, -, -, htalk⟩ := h.noted i hmem
    have hbare := hends.1.not_isFailure (h.follows.bare_mem he hi htalk)
    rw [Event.isFailure_bare] at hbare
    exact hbare
  · have hnothing := h.follows.bare_mem he hi
      ((h.others i hmem).talk_eq.trans (List.append_nil _).symm)
    cases hnothing

/-- A member of whose client something is noted down as failed has failed with it. -/
theorem Stands.ended_of_failure {crew : Crew n} {q : Inquiry ι} {state : Nat → σ}
    {past l : List (Event n)} {i : Fin n} {p t : Nat} {stage : Stage .nothing} {c : Call κ}
    {e : ClientError} (h : Stands crew q state past w i p stage) (htalk : w.talk i = past ++ l)
    (he : .failed t i c e ∈ l) : stage = .ended (.error (.client (crew.title i) e)) := by
  -- Otherwise all that is noted down are questions and answers.
  have hnone : ∀ {k} {more : List (Event n)}, q.Reaches k →
      w.talk i = past ++ (q.heard i k ++ more) → .failed t i c e ∈ more := by
    intro k more hreaches hsame
    rw [List.append_cancel_left (htalk.symm.trans hsame)] at he
    refine (List.mem_append.1 he).resolve_left fun hmem => ?_
    cases hreaches.not_isFailure hmem
  cases h with
  | asks hreaches _ _ ht => cases hnone hreaches (ht.trans (by rw [List.append_nil]))
  | waits hreaches _ _ _ ht =>
    have hquestion := hnone hreaches (ht.trans (List.append_assoc _ _ _))
    cases List.mem_singleton.1 hquestion
  | unmet hreaches _ _ _ ht => cases hnone hreaches (ht.trans (by rw [List.append_nil]))
  | rests hreaches _ _ ht => cases hnone hreaches (ht.trans (by rw [List.append_nil]))
  | done hends _ _ ht => cases hnone hends.1 (ht.trans (by rw [List.append_nil]))
  | @failed k e' hfails _ ht =>
    have hlast := hnone hfails.1 (ht.trans (by rw [heard_succ]))
    rcases List.mem_pair.1 hlast with hmem | hmem
    · cases hmem
    · rw [response, hfails.2.2.2] at hmem
      cases hmem
      rfl

/-- The failure of a client ends the inquiries of some clients, which gives a world in which all
that they wait for is dropped. If there are many clients, all before it have come to a good end. -/
structure Breaks (q : Fin n → Inquiry ι) (clients : List (Fin n)) (w₀ w : World σ n) (i : Fin n)
    (e : ClientError) (u : World σ n) : Prop where
  mem : i ∈ clients
  fails : ∃ k, (q i).Fails k e ∧ w.talk i = w₀.talk i ++ (q i).heard i (k + 1)
  first : Group.smallSize < clients.length →
    ∀ front back, clients = front ++ i :: back → ∀ j ∈ front, ∃ k, (q j).Ends k
  givesUp : u.GivesUp w

end Inquiry

/-! ### Verdicts -/

namespace Group

variable {crew : Crew n} {q : Fin n → Inquiry ι} {state : Fin n → Nat → σ}
  {clients front back : List (Fin n)} {w₀ w : World σ n} {g : Group n .nothing} {p : Fin n → Nat}
  {i j : Fin n} {k t : Nat} {c : Call κ} {e : ClientError} {f : Fault}

theorem Polls.member_at (h : Polls crew q state clients w₀ p w g) (hi : clients[k]? = some i) :
    ∃ m, g.members[k]? = some m ∧ m.who = i := by
  rw [← h.who_eq, List.getElem?_map] at hi
  exact Option.map_eq_some_iff.1 hi

/-- A member that has ended well has come to the good end of its inquiry. -/
theorem Polls.ends_of_ended (h : Polls crew q state clients w₀ p w g)
    {a : AnswerKind.nothing.Answer} (hended : EndedAt g.members k (.ok a))
    (hi : clients[k]? = some i) : ∃ l, (q i).Ends l := by
  obtain ⟨m, hm, rfl⟩ := h.member_at hi
  obtain ⟨m', hm', hstage⟩ := hended
  cases hm.symm.trans hm'
  have hstands := h.stands m (List.mem_of_getElem? hm)
  rw [show m.stage = .ended (.ok a) from hstage] at hstands
  obtain ⟨l, hends, -⟩ := hstands.of_ended_ok
  exact ⟨l, hends⟩

/-- In a large group that has failed, all before the client that failed have come to a good end. -/
theorem Polls.ends_before (h : Polls crew q state clients w₀ p w g) (hnodup : clients.Nodup)
    (hlarge : smallSize < clients.length) (hverdict : g.verdict = some (.error f)) :
    ∃ i ∈ clients, ∃ k e, (q i).Fails k e ∧ f = .client (crew.title i) e ∧
      w.talk i = w₀.talk i ++ (q i).heard i (k + 1) ∧
      ∀ front back, clients = front ++ i :: back → ∀ j ∈ front, ∃ k, (q j).Ends k := by
  have hlength : g.members.length = clients.length := by rw [← h.who_eq, List.length_map]
  obtain ⟨place, ⟨m, hm, hended⟩, hbefore⟩ := (verdict_eq_error_iff (hlength ▸ hlarge)).1 hverdict
  obtain ⟨hwho, k, e, hfails, hf, htalk⟩ := h.fails_of_ended (List.mem_of_getElem? hm) hended
  refine ⟨m.who, hwho, k, e, hfails, hf, htalk, fun front back hclients j hj => ?_⟩
  have hplace : clients[place]? = some m.who := by rw [← h.who_eq, List.getElem?_map, hm]; rfl
  -- The client stands in one place only, so this is where the front ends.
  have hfront : place = front.length := by
    have hat : clients[front.length]? = some m.who := by simp [hclients]
    have hlt : place < clients.length := (List.getElem?_eq_some_iff.1 hplace).1
    exact (List.getElem?_inj hlt hnodup).1 (hplace.trans hat.symm)
  obtain ⟨l, hl⟩ := List.getElem?_of_mem hj
  have hlt : l < front.length := (List.getElem?_eq_some_iff.1 hl).1
  obtain ⟨a, hok⟩ := hbefore l (hfront ▸ hlt)
  exact h.ends_of_ended hok (by rw [hclients, List.getElem?_append_left hlt, hl])

/-- A group that fails breaks its inquiries. -/
theorem Polls.breaks (h : Polls crew q state clients w₀ p w g) (hnodup : clients.Nodup)
    (hverdict : g.verdict = some (.error f)) :
    ∃ i e, Inquiry.Breaks q clients w₀ w i e (Group.drop w g.members) ∧
      f = .client (crew.title i) e := by
  by_cases hlarge : smallSize < clients.length
  · obtain ⟨i, hi, k, e, hfails, hf, htalk, hbefore⟩ := h.ends_before hnodup hlarge hverdict
    exact ⟨i, e, ⟨hi, ⟨k, hfails, htalk⟩, fun _ => hbefore, drop_givesUp w g.members⟩, hf⟩
  · obtain ⟨i, hi, k, e, hfails, hf, htalk⟩ := h.failed_of_verdict hverdict
    exact ⟨i, e, ⟨hi, ⟨k, hfails, htalk⟩, fun h => absurd h hlarge, drop_givesUp w g.members⟩, hf⟩

/-- A large group fails with nobody but the first client, by its place, that does. -/
theorem Polls.eq_of_fails_first (h : Polls crew q state clients w₀ p w g) (hnodup : clients.Nodup)
    (hlarge : smallSize < clients.length) (hclients : clients = front ++ i :: back)
    (hfront : ∀ j ∈ front, ∃ l, (q j).Ends l) (hfails : (q i).Fails k e)
    (hverdict : g.verdict = some (.error f)) : f = .client (crew.title i) e := by
  obtain ⟨j, hj, l, e', hfails', rfl, -, hbefore⟩ := h.ends_before hnodup hlarge hverdict
  rw [hclients] at hj
  rcases List.mem_append.1 hj with hj | hj
  · obtain ⟨K, hends⟩ := hfront j hj
    exact absurd hfails' hends.not_fails
  · rcases List.mem_cons.1 hj with rfl | hj
    · rw [(hfails.unique hfails').2]
    · -- It would have waited for the good end of the one that fails.
      obtain ⟨between, after, rfl⟩ := List.append_of_mem hj
      obtain ⟨K, hends⟩ := hbefore (front ++ i :: between) after (by simp [hclients]) i (by simp)
      exact absurd hfails hends.not_fails

/-- A large group that is settled up to its first failure, by place, has failed. -/
theorem Polls.verdict_of_fails_first (h : Polls crew q state clients w₀ p w g)
    (hlarge : smallSize < clients.length) (hclients : clients = front ++ i :: back)
    (hsettled : SettledTill crew w g t)
    (hfront : ∀ j ∈ front, ∃ l, (q j).Ends l ∧ (q j).asked l ≤ t) (hfails : (q i).Fails k e)
    (ht : (q i).told k ≤ t) :
    g.verdict = some (.error (.client (crew.title i) e)) := by
  have hlength : g.members.length = clients.length := by rw [← h.who_eq, List.length_map]
  refine (verdict_eq_error_iff (hlength ▸ hlarge)).2 ⟨front.length, ?_, fun l hl => ?_⟩
  · obtain ⟨m, hm, rfl⟩ := h.member_at (k := front.length) (i := i) (by simp [hclients])
    have hmem := List.mem_of_getElem? hm
    obtain ⟨hcannot, hwake⟩ := hsettled.member hmem
    exact ⟨m, hm, (h.stands m hmem).failed_of_fails hcannot hwake hfails ht⟩
  · obtain ⟨m, hm, hwho⟩ := h.member_at (k := l) (i := front[l])
      (by rw [hclients, List.getElem?_append_left hl, List.getElem?_eq_getElem hl])
    have hmem := List.mem_of_getElem? hm
    obtain ⟨hcannot, hwake⟩ := hsettled.member hmem
    obtain ⟨K, hends, hK⟩ := hfront m.who (hwho ▸ List.getElem_mem hl)
    exact ⟨(), m, hm, (h.stands m hmem).over_of_ends hcannot hwake hends hK⟩

variable [ClientModel σ] {next : List AnswerKind.nothing.Answer → Activity n α}

/-- How a group that polls comes to its end without success: it waits for ever, or
somebody has failed. -/
theorem Polls.halts (h : Polls crew q state clients w₀ p w g) (hnodup : clients.Nodup)
    {o : Outcome σ n α} (htick : Running.tick crew ⟨none, none⟩ w ⟨[], .grouped g next⟩ = .halt o) :
    o = .never w ∨ ∃ i e u, Inquiry.Breaks q clients w₀ w i e u ∧
      o = .ended u (.error (.client (crew.title i) e)) := by
  cases hverdict : g.verdict with
  | none =>
    cases hnext : g.next? crew w with
    | some j =>
      rw [tick_of_next hverdict hnext] at htick
      cases htick
    | none =>
      cases hwake : g.wakeAt with
      | some s =>
        rw [tick_of_wakeAt hverdict hnext hwake] at htick
        cases htick
      | none =>
        rw [tick_of_never hverdict hnext hwake] at htick
        cases htick
        exact .inl rfl
  | some result =>
    cases result with
    | ok results =>
      rw [tick_of_succeeded hverdict] at htick
      cases htick
    | error f =>
      rw [tick_of_failed hverdict] at htick
      cases htick
      obtain ⟨i, e, hbreaks, rfl⟩ := h.breaks hnodup hverdict
      exact .inr ⟨i, e, _, hbreaks, rfl⟩

/-- In a small group, a call that has failed ends the group. -/
theorem Polls.tick_of_failure (h : Polls crew q state clients w₀ p w g)
    (hsmall : clients.length ≤ smallSize) (he : .failed t i c e ∈ w₀.since w) :
    Running.tick crew ⟨none, none⟩ w (⟨[], .grouped g next⟩ : Running n α) =
      .halt (.ended (Group.drop w g.members) (.error (.client (crew.title i) e))) := by
  have hi : Event.concerns i (.failed t i c e) = true := by simp [Event.concerns]
  have hmem : i ∈ clients := by
    by_contra hother
    have hnothing := h.follows.bare_mem he hi
      ((h.others i hother).talk_eq.trans (List.append_nil _).symm)
    cases hnothing
  obtain ⟨m, hm, rfl⟩ := h.exists_member hmem
  obtain ⟨l, -, htalk⟩ := (h.stands m hm).exists_partial
  have hended := (h.stands m hm).ended_of_failure htalk (h.follows.bare_mem he hi htalk)
  exact tick_of_failed (h.verdict_of_failed hsmall hm hended)

end Group

namespace Inquiry

variable [ClientModel σ] {q : Fin n → Inquiry ι} {state : Fin n → Nat → σ}
  {clients front back : List (Fin n)} {w : World σ n} {i : Fin n} {k : Nat} {e : ClientError}

/-- In a large group, the first failure by place ends the group, if all before it come to a good end
and unwanted answers are followed by rests. -/
theorem Begin.fails_first (h : Begin q state clients w) (crew : Crew n)
    (hevery : ∀ j ∈ clients, 0 < (q j).every) (hlarge : Group.smallSize < clients.length)
    (hclients : clients = front ++ i :: back) (hfront : ∀ j ∈ front, ∃ l, (q j).Ends l)
    (hfails : (q i).Fails k e) (next : List AnswerKind.nothing.Answer → Activity n α) :
    ∃ w' r' u, Running.Comes crew ⟨none, none⟩ w ⟨[],
      .going (.gather (chains q clients) next)⟩ w' r' ∧
      r'.tick crew ⟨none, none⟩ w' = .halt (.ended u (.error (.client (crew.title i) e))) := by
  choose! K hK using hfront
  obtain ⟨t, hle, ht⟩ := exists_time (max w.now ((q i).told k)) fun j => (q j).asked (K j)
  obtain ⟨hnow, htold⟩ := Nat.max_le.1 hle
  obtain ⟨p, w', g, hcomes, hpolls, hend⟩ := h.exists_settled crew hnow
    (fun j hj l hl hasked => le_of_asked_le (hevery j hj) hl hasked) next
  have hverdict : g.verdict = some (.error (.client (crew.title i) e)) := by
    rcases hend with hdecided | hsettled
    · obtain ⟨result, hresult⟩ := Option.ne_none_iff_exists'.1 hdecided
      cases result with
      | ok results =>
        obtain ⟨l, hends, -⟩ := (hpolls.completed hresult).noted i (by simp [hclients])
        exact absurd hfails hends.not_fails
      | error f =>
        rw [hresult, hpolls.eq_of_fails_first h.nodup hlarge hclients (fun j hj =>
          ⟨K j, hK j hj⟩) hfails
          hresult]
    · exact hpolls.verdict_of_fails_first hlarge hclients hsettled
        (fun j hj => ⟨K j, hK j hj, ht j⟩) hfails htold
  exact ⟨w', _, _, hcomes, Group.tick_of_failed hverdict⟩

end Inquiry

end BotScript
