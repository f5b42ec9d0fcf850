import BotScript.Proofs.Activity.Ensures
import BotScript.Proofs.Activity.Zones

/-!
# Which calls an activity makes

A condition on calls and the clients they are made to, read off an activity as a tree: it holds of
every call laid down in it. Whatever the clients answer, and whether or not the activity is stopped,
everything that is written down while it runs is then about such calls. An activity that does
nothing but ask questions, one after the other, comes to its end, unless a client does not answer.

## Main definitions

* `Chain.Calls`, `Activity.Calls`: the condition holds all over a chain and an activity.
* `World.Adds`: what has been written down since is about such calls.
* `Activity.Asks`: an activity asks questions and does nothing else.
* `World.Hangs`: a call has just been made that never comes to its end.

## Main results

* `Running.tick_adds`, `Running.run_adds`: what a small step and a run write down.
* `Activity.Asks.halts`: an activity that only asks comes to its end.
-/

namespace BotScript

open World

variable {σ : Type} {n : Nat} {κ : AnswerKind} {α β : Type}

/-- Every call laid down in a chain satisfies a condition. -/
def Chain.Calls (P : Sigma Call → Prop) : Chain κ → Prop
  | .done _ => True
  | .fail _ => True
  | .call c next => P ⟨_, c⟩ ∧ ∀ a, (next a).Calls P
  | .rest _ next => next.Calls P
  | .focus next => next.Calls P
  | .poll c _ _ next => P ⟨_, c⟩ ∧ next.Calls P

/-- Every call laid down in an activity satisfies a condition, together with the client
it is made to. -/
def Activity.Calls (P : Fin n → Sigma Call → Prop) : Activity n α → Prop
  | .done _ => True
  | .fail _ => True
  | .ask who c next => P who ⟨_, c⟩ ∧ ∀ a, (next a).Calls P
  | .pause _ next => next.Calls P
  | .launch who c next => P who ⟨_, c⟩ ∧ next.Calls P
  | .join next => next.Calls P
  | .gather chains next => (∀ c ∈ chains, c.2.Calls (P c.1)) ∧ ∀ as, (next as).Calls P

/-- An event is about a call that satisfies a condition. -/
def Event.IsAbout (P : Fin n → Sigma Call → Prop) : Event n → Prop
  | .made _ who c _ => P who ⟨_, c⟩
  | .answered _ who c _ => P who ⟨_, c⟩
  | .failed _ who c _ => P who ⟨_, c⟩
  | .dropped _ who c => P who ⟨_, c⟩
  | .line _ => False

variable {P : Fin n → Sigma Call → Prop}

/-! ### What is written down -/

namespace World

variable {u v w : World σ n}

/-- What has been written down since a world is about calls that satisfy a condition. -/
def Adds (P : Fin n → Sigma Call → Prop) (v w : World σ n) : Prop :=
  ∃ events : List (Event n), v.journal = events ++ w.journal ∧ ∀ e ∈ events, e.IsAbout P

theorem Adds.of_journal_eq (h : v.journal = w.journal) : Adds P v w := ⟨[], h, by simp⟩

theorem Adds.refl (w : World σ n) : Adds P w w := .of_journal_eq rfl

theorem Adds.trans (huv : Adds P u v) (hvw : Adds P v w) : Adds P u w := by
  obtain ⟨newer, hu, hnewer⟩ := huv
  obtain ⟨older, hv, holder⟩ := hvw
  refine ⟨newer ++ older, by rw [hu, hv, List.append_assoc], ?_⟩
  intro e he
  rcases List.mem_append.1 he with he | he
  · exact hnewer e he
  · exact holder e he

theorem adds_record (w : World σ n) {e : Event n} (he : e.IsAbout P) : Adds P (w.record e) w :=
  ⟨[e], rfl, fun _ hmem => List.mem_singleton.1 hmem ▸ he⟩

theorem adds_call [ClientModel σ] (crew : Crew n) (w : World σ n) {i : Fin n} {c : Call κ}
    (h : P i ⟨κ, c⟩) : Adds P (w.call crew i c).2 w :=
  ⟨[.made w.now i c (w.focusHeld crew i)], rfl, fun _ he => List.mem_singleton.1 he ▸ h⟩

/-- Everything that has happened since is about such calls. -/
theorem Adds.isAbout (h : Adds P v w) {e : Event n} (he : e ∈ w.since v) : e.IsAbout P := by
  obtain ⟨events, hjournal, hevents⟩ := h
  have hhistory : v.history = w.history ++ events.reverse := by
    rw [history, hjournal, List.reverse_append]
    rfl
  rw [since_of_history hhistory] at he
  exact hevents e (List.mem_reverse.1 he)

/-- A client to whom no such call is made has nothing noted down of it. -/
theorem Adds.talk_eq (h : Adds P v w) {i : Fin n} (hi : ∀ c, ¬ P i c) : v.talk i = w.talk i := by
  obtain ⟨events, hjournal, hevents⟩ := h
  have hnone : events.reverse.filter (Event.concerns i) = [] := by
    refine List.filter_eq_nil_iff.2 fun e he hconcerns => ?_
    have habout := hevents e (List.mem_reverse.1 he)
    cases e with
    | made _ who | answered _ who | failed _ who | dropped _ who =>
      obtain rfl : who = i := by simpa [Event.concerns] using hconcerns
      exact hi _ habout
    | line text => exact habout
  rw [talk, history, hjournal, List.reverse_append, List.filter_append, hnone, List.append_nil]
  rfl

end World

/-! ### Activities on their way -/

/-- The condition on calls, for a chain on its way. -/
def Stage.Calls (P : Sigma Call → Prop) : Stage κ → Prop
  | .ready c => c.Calls P
  | .calling c _ _ next => P ⟨_, c⟩ ∧ ∀ a, (next a).Calls P
  | .resting _ next => next.Calls P
  | .queued next => next.Calls P
  | .ended _ => True

/-- The condition on calls, for the members of a group. -/
def Group.Calls (P : Fin n → Sigma Call → Prop) (members : List (Member n κ)) : Prop :=
  ∀ m ∈ members, m.stage.Calls (P m.who)

/-- The condition on calls, for an activity on its way. -/
def Phase.Calls (P : Fin n → Sigma Call → Prop) : Phase n α → Prop
  | .going a => a.Calls P
  | .asking who c _ _ next => P who ⟨_, c⟩ ∧ ∀ a, (next a).Calls P
  | .pausing _ next => next.Calls P
  | .grouped g next => Group.Calls P g.members ∧ ∀ as, (next as).Calls P

/-- The condition on calls, for an activity on its way and the actions it has started. -/
def Running.Calls (P : Fin n → Sigma Call → Prop) (r : Running n α) : Prop :=
  Group.Calls P r.launched ∧ r.phase.Calls P

/-- One thing that a member of a group does keeps the condition. -/
theorem Member.move_calls [ClientModel σ] (crew : Crew n) (w : World σ n) {m : Member n κ}
    (h : m.stage.Calls (P m.who)) :
    (m.move crew w).1.stage.Calls (P m.who) ∧ Adds P (m.move crew w).2 w := by
  unfold move
  split <;> rename_i hstage <;> rw [hstage] at h
  · exact ⟨trivial, .of_journal_eq rfl⟩
  · exact ⟨trivial, .of_journal_eq rfl⟩
  · exact ⟨h, adds_call crew w h.1⟩
  · exact ⟨h, .refl w⟩
  · exact ⟨h, .of_journal_eq rfl⟩
  · -- A poll that is not done makes the same call again.
    refine ⟨⟨h.1, fun a => ?_⟩, adds_call crew w h.1⟩
    dsimp only
    split
    · exact h.2
    · exact h
  · exact ⟨h.2 _, adds_record w h.1⟩
  · exact ⟨trivial, (adds_record w h.1 : Adds P (w.failed _ _ _) w)⟩
  · exact ⟨h, .refl w⟩
  · exact ⟨h, .refl w⟩
  · rw [hstage]
    exact ⟨trivial, .refl w⟩

namespace Group

theorem calls_nil : Calls P ([] : List (Member n κ)) := by
  intro m hm
  cases hm

theorem move_calls [ClientModel σ] (crew : Crew n) (w : World σ n) {g : Group n κ} (i : Nat)
    (h : Calls P g.members) :
    Calls P (g.move crew w i).1.members ∧ Adds P (g.move crew w i).2 w := by
  unfold move
  split
  · exact ⟨h, .refl w⟩
  · rename_i m hm
    obtain ⟨hmoved, hadds⟩ := Member.move_calls crew w (h m (List.mem_of_getElem? hm))
    refine ⟨fun m' hm' => ?_, hadds⟩
    rcases List.mem_or_eq_of_mem_set hm' with hm' | rfl
    · exact h m' hm'
    · rw [Member.move_who]
      exact hmoved

theorem drop_adds {members : List (Member n κ)} (h : Calls P members) (w : World σ n) :
    Adds P (Group.drop w members) w := by
  induction members generalizing w with
  | nil => exact .refl w
  | cons m rest ih =>
    refine (ih (fun m' hm' => h m' (by simp [hm'])) (m.drop w)).trans ?_
    have hm := h m (by simp)
    unfold Member.drop
    split
    · rename_i hstage
      rw [hstage] at hm
      exact (adds_record w hm.1 : Adds P (w.dropped _ _) w)
    · exact .of_journal_eq rfl

end Group

namespace Running

variable {r : Running n α}

theorem Calls.drop_adds (h : r.Calls P) (w : World σ n) : Adds P (r.drop w) w := by
  obtain ⟨launched, phase⟩ := r
  obtain ⟨hlaunched, hphase⟩ := h
  have hdrop := Group.drop_adds hlaunched w
  cases phase with
  | going a => exact hdrop
  | asking who c due result next =>
    exact (adds_record _ hphase.1 : Adds P (World.dropped _ _ _) _).trans hdrop
  | pausing due next => exact hdrop
  | grouped g next => exact (Group.drop_adds hphase.1 _).trans hdrop

theorem Calls.wake (h : r.Calls P) : r.wake.Calls P := by
  obtain ⟨launched, phase⟩ := r
  cases phase <;> exact h

end Running

/-- What one thing that an activity does has to satisfy. -/
def Advance.Calls (P : Fin n → Sigma Call → Prop) (w : World σ n) : Advance σ n α → Prop
  | .moved w' r => Adds P w' w ∧ r.Calls P
  | .ended w' _ => Adds P w' w
  | .waits _ => True

namespace Running

variable [ClientModel σ] {crew : Crew n} {alarm : Alarm} {w w' : World σ n} {r r' : Running n α}

theorem Calls.advance (h : r.Calls P) (crew : Crew n) (w : World σ n) :
    (r.advance crew w).Calls P w := by
  obtain ⟨launched, phase⟩ := r
  have hdrop := h.drop_adds w
  obtain ⟨hlaunched, hphase⟩ := h
  cases phase with
  | going a =>
    cases a with
    | done x => exact hdrop
    | fail f => exact hdrop
    | ask who c next => exact ⟨adds_call crew w hphase.1, hlaunched, hphase⟩
    | pause ms next => exact ⟨.refl w, hlaunched, hphase⟩
    | launch who c next =>
      -- The call moves over to the actions that have been started.
      refine ⟨adds_call crew w hphase.1, fun m hm => ?_, hphase.2⟩
      rcases List.mem_append.1 hm with hm | hm
      · exact hlaunched m hm
      · rw [List.mem_singleton.1 hm]
        exact ⟨hphase.1, fun _ => trivial⟩
    | join next => exact ⟨.refl w, Group.calls_nil, hlaunched, fun _ => hphase⟩
    | gather chains next =>
      refine ⟨.refl w, hlaunched, fun m hm => ?_, hphase.2⟩
      obtain ⟨c, hc, rfl⟩ := List.mem_map.1 hm
      exact hphase.1 c hc
  | asking who c due result next =>
    simp only [Running.advance]
    split
    · cases result with
      | ok a => exact ⟨adds_record w hphase.1, hlaunched, hphase.2 a⟩
      | error e => exact (Group.drop_adds hlaunched _).trans (adds_record w hphase.1)
    · trivial
  | pausing due next =>
    simp only [Running.advance]
    split
    · exact ⟨.refl w, hlaunched, hphase⟩
    · trivial
  | grouped g next =>
    simp only [Running.advance]
    split
    · exact ⟨.refl w, hlaunched, hphase.2 _⟩
    · exact hdrop
    · split
      · obtain ⟨hmoved, hadds⟩ := Group.move_calls crew w _ hphase.1
        exact ⟨hadds, hlaunched, hmoved, hphase.2⟩
      · trivial

/-- What a small step writes down. -/
theorem tick_adds (h : r.Calls P) (crew : Crew n) (alarm : Alarm) (w : World σ n) :
    match r.tick crew alarm w with
    | .halt o => Adds P o.world w
    | .on w' r' => Adds P w' w ∧ r'.Calls P := by
  have hadvance := h.advance crew w
  -- Whatever the alarm does, nothing is written down but what is dropped.
  have hlater : ∀ t, Adds P (r.drop (w.atTime t)) w := fun t => h.drop_adds (w.atTime t)
  cases htick : r.tick crew alarm w with
  | on w' r' =>
    rcases of_tick_on htick with hadv | ⟨till, t, -, rfl, rfl⟩
    · rw [hadv] at hadvance
      exact hadvance
    · exact ⟨.of_journal_eq rfl, h.wake⟩
  | halt o =>
    rcases of_tick_halt htick with ⟨w', result, hadv, rfl⟩ | ⟨t, rfl | rfl⟩ | rfl
    · rw [hadv] at hadvance
      exact hadvance
    · exact hlater t
    · exact hlater t
    · exact .refl w

/-- What a run writes down, however far it is followed. -/
theorem run_adds (h : r.Calls P) (crew : Crew n) (alarm : Alarm) (fuel : Nat) (w : World σ n) :
    Adds P (r.run crew alarm fuel w).world w := by
  induction fuel generalizing alarm w r with
  | zero => exact .refl w
  | succ fuel ih =>
    have hstep := tick_adds h crew alarm w
    cases htick : r.tick crew alarm w with
    | halt o =>
      rw [htick] at hstep
      rw [run_succ_halt htick]
      exact hstep
    | on w' r' =>
      rw [htick] at hstep
      rw [run_succ_on_moved htick]
      exact (ih hstep.2 alarm.moved w').trans hstep.1

end Running

namespace Activity

/-- What an activity writes down when it is run. -/
theorem Calls.run_adds [ClientModel σ] {a : Activity n α} (h : a.Calls P) (crew : Crew n)
    (alarm : Alarm) (fuel : Nat) (w : World σ n) : Adds P (a.run crew alarm fuel w).world w := by
  have hrunning : (Running.ofActivity a).Calls P := ⟨Group.calls_nil, h⟩
  exact Running.run_adds hrunning crew alarm fuel w

end Activity

/-! ### Activities that only ask -/

/-- Whether a call is a question, which has an answer, and no action. -/
def IsQuestion (c : Sigma Call) : Prop := c.1 ≠ .nothing

/-- An activity asks questions, one after the other, and does nothing else. -/
def Activity.Asks : Activity n α → Prop
  | .done _ => True
  | .fail _ => True
  | .ask _ c next => IsQuestion ⟨_, c⟩ ∧ ∀ a, (next a).Asks
  | _ => False

/-- A call has just been made that never comes to its end. -/
def World.Hangs [ClientModel σ] (crew : Crew n) (w : World σ n) : Prop :=
  ∃ (v : World σ n) (i : Fin n) (κ : AnswerKind) (c : Call κ),
    w = (v.call crew i c).2 ∧ (v.call crew i c).1.delay = none

namespace Activity

/-- An activity that only asks, followed by one that only asks after what the first one
can come to. -/
theorem Asks.bind {a : Activity n α} {f : α → Activity n β} {S : α → Prop} (ha : a.Asks)
    (hS : a.Ensures (fun _ => True) S) (hf : ∀ x, S x → (f x).Asks) : (a.bind f).Asks := by
  induction a with
  | done x => exact hf x hS
  | fail e => trivial
  | ask who c next ih => exact ⟨ha.1, fun a => ih a (ha.2 a) (hS a)⟩
  | pause | launch | join | gather => exact ha.elim

theorem Asks.ensures {a : Activity n α} (h : a.Asks) : a.Ensures (fun _ => True) fun _ => True := by
  induction a with
  | done x => trivial
  | fail f => trivial
  | ask who c next ih => exact fun a => ih a (h.2 a)
  | pause | launch | join | gather => exact h.elim

theorem Asks.andThen {a : Activity n α} {f : α → Activity n β} (ha : a.Asks)
    (hf : ∀ x, (f x).Asks) :
    (a.bind f).Asks :=
  ha.bind ha.ensures fun x _ => hf x

theorem asks_lift (e : Except Fault α) : (lift e : Activity n α).Asks := by
  cases e with
  | ok x => trivial
  | error f => trivial

theorem Asks.calls {a : Activity n α} (h : a.Asks) : a.Calls fun _ c => IsQuestion c := by
  induction a with
  | done x => trivial
  | fail f => trivial
  | ask who c next ih => exact ⟨h.1, fun a => ih a (h.2 a)⟩
  | pause | launch | join | gather => exact h.elim

/-- An activity that only asks comes to its end, unless a client does not answer. -/
theorem Asks.halts [ClientModel σ] {a : Activity n α} (h : a.Asks) (crew : Crew n) (w : World σ n) :
    ∃ (w' : World σ n) (r' : Running n α) (o : Outcome σ n α),
      Running.Comes crew ⟨none, none⟩ w ⟨[], .going a⟩ w' r' ∧
      r'.tick crew ⟨none, none⟩ w' = .halt o ∧
      ((∃ u result, o = .ended u result) ∨ ∃ u, o = .never u ∧ u.Hangs crew) := by
  induction a generalizing w with
  | done x => exact ⟨w, _, _, .start, rfl, .inl ⟨w, .ok x, rfl⟩⟩
  | fail f => exact ⟨w, _, _, .start, rfl, .inl ⟨w, .error f, rfl⟩⟩
  | ask who c next ih =>
    rcases hreply : (w.call crew who c).1 with ⟨delay, result⟩
    cases delay with
    | none =>
      -- The client does not answer, so there is nothing to wait for.
      have hasks : Running.tick crew ⟨none, none⟩ w (⟨[], .going (.ask who c next)⟩ : Running n α) =
          .on (w.call crew who c).2 ⟨[], .asking who c none result next⟩ := by
        simp [Running.tick_eq, Running.advance, hreply, Reply.due]
      exact ⟨_, _, _, .tick .start hasks, rfl, .inr ⟨_, rfl, w, who, _, c, rfl, by rw [hreply]⟩⟩
    | some ms =>
      have hcomes := Running.comes_ask w hreply next
      have hdue : w.now + ms ≤ ((w.call crew who c).2.atTime (w.now + ms)).now :=
        Nat.le_max_right _ _
      cases result with
      | ok a =>
        obtain ⟨w', r', o, hrest, hhalt, hend⟩ := ih a (h.2 a)
          (((w.call crew who c).2.atTime (w.now + ms)).answered who c a)
        exact ⟨w', r', o, (hcomes.tick (Running.tick_of_answered hdue)).trans hrest, hhalt, hend⟩
      | error e => exact ⟨_, _, _, hcomes, Running.tick_of_refused hdue, .inl ⟨_, _, rfl⟩⟩
  | pause | launch | join | gather => exact h.elim

end Activity

end BotScript
