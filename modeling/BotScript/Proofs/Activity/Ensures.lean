import BotScript.Proofs.Activity.Sequel

/-!
# What an activity can come to

A condition on the results of an activity and one on its faults, read off the activity as a tree:
they hold of every result and every fault laid down in it, whatever the clients answer. Whoever runs
the activity, a result then satisfies the one and a fault the other, provided that the failures of
clients satisfy it.

## Main definitions

* `Chain.Ensures`, `Activity.Ensures`: the conditions hold all over a chain and an activity.

## Main results

* `Activity.Ensures.bind`: the conditions of an activity with a sequel.
* `Activity.Ensures.of_run_ok`, `Activity.Ensures.of_run_error`: what a run of an activity comes to.
-/

namespace BotScript

variable {σ : Type} {n : Nat} {κ : AnswerKind} {α β : Type}

/-- A result satisfies one condition, and a fault another one. -/
def Meets (P : Fault → Prop) (Q : α → Prop) : Except Fault α → Prop
  | .ok x => Q x
  | .error f => P f

/-- Every fault laid down in a chain satisfies a condition. -/
def Chain.Ensures (P : Fault → Prop) : Chain κ → Prop
  | .done _ => True
  | .fail f => P f
  | .call _ next => ∀ a, (next a).Ensures P
  | .rest _ next => next.Ensures P
  | .focus next => next.Ensures P
  | .poll _ _ _ next => next.Ensures P

theorem Chain.Ensures.mono {P P' : Fault → Prop} {c : Chain κ} (h : c.Ensures P)
    (hP : ∀ f, P f → P' f) : c.Ensures P' := by
  induction c with
  | done result => trivial
  | fail f => exact hP f h
  | call c next ih => exact fun a => ih a (h a)
  | rest ms next ih => exact ih h
  | focus next ih => exact ih h
  | poll c enough every next ih => exact ih h

theorem Chain.Ensures.and {P P' : Fault → Prop} {c : Chain κ} (h : c.Ensures P)
    (h' : c.Ensures P') :
    c.Ensures fun f => P f ∧ P' f := by
  induction c with
  | done result => trivial
  | fail f => exact ⟨h, h'⟩
  | call c next ih => exact fun a => ih a (h a) (h' a)
  | rest ms next ih => exact ih h h'
  | focus next ih => exact ih h h'
  | poll c enough every next ih => exact ih h h'

namespace Activity

/-- Every fault laid down in an activity satisfies a condition, and so does every result. -/
def Ensures (P : Fault → Prop) (Q : α → Prop) : Activity n α → Prop
  | .done x => Q x
  | .fail f => P f
  | .ask _ _ next => ∀ a, (next a).Ensures P Q
  | .pause _ next => next.Ensures P Q
  | .launch _ _ next => next.Ensures P Q
  | .join next => next.Ensures P Q
  | .gather chains next => (∀ c ∈ chains, c.2.Ensures P) ∧ ∀ as, (next as).Ensures P Q

variable {P : Fault → Prop} {Q : α → Prop} {R : β → Prop}

/-- The conditions of an activity with a sequel. -/
theorem Ensures.bind {a : Activity n α} {f : α → Activity n β} (ha : a.Ensures P Q)
    (hf : ∀ x, Q x → (f x).Ensures P R) : (a.bind f).Ensures P R := by
  induction a with
  | done x => exact hf x ha
  | fail e => exact ha
  | ask who c next ih => exact fun a => ih a (ha a)
  | pause ms next ih => exact ih ha
  | launch who c next ih => exact ih ha
  | join next ih => exact ih ha
  | gather chains next ih => exact ⟨ha.1, fun as => ih as (ha.2 as)⟩

/-- The conditions of an activity followed by another one that does not depend on its result. -/
theorem Ensures.andThen {a : Activity n α} {f : α → Activity n β} (ha : a.Ensures P fun _ => True)
    (hf : ∀ x, (f x).Ensures P R) : (a.bind f).Ensures P R :=
  ha.bind fun x _ => hf x

theorem Ensures.mono {P' : Fault → Prop} {Q' : α → Prop} {a : Activity n α} (ha : a.Ensures P Q)
    (hP : ∀ f, P f → P' f) (hQ : ∀ x, Q x → Q' x) : a.Ensures P' Q' := by
  induction a with
  | done x => exact hQ x ha
  | fail f => exact hP f ha
  | ask who c next ih => exact fun a => ih a (ha a)
  | pause ms next ih => exact ih ha
  | launch who c next ih => exact ih ha
  | join next ih => exact ih ha
  | gather chains next ih =>
    exact ⟨fun c hc => (ha.1 c hc).mono hP, fun as => ih as (ha.2 as)⟩

/-- What holds of an activity for two reasons. -/
theorem Ensures.and {P' : Fault → Prop} {Q' : α → Prop} {a : Activity n α} (h : a.Ensures P Q)
    (h' : a.Ensures P' Q') : a.Ensures (fun f => P f ∧ P' f) fun x => Q x ∧ Q' x := by
  induction a with
  | done x => exact ⟨h, h'⟩
  | fail f => exact ⟨h, h'⟩
  | ask who c next ih => exact fun a => ih a (h a) (h' a)
  | pause ms next ih => exact ih h h'
  | launch who c next ih => exact ih h h'
  | join next ih => exact ih h h'
  | gather chains next ih =>
    exact ⟨fun c hc => (h.1 c hc).and (h'.1 c hc), fun as => ih as (h.2 as) (h'.2 as)⟩

theorem ensures_lift {e : Except Fault α} (h : Meets P Q e) :
    (lift e : Activity n α).Ensures P Q := by
  cases e with
  | ok x => exact h
  | error f => exact h

theorem ensures_forEach {ι : Type} {visit : ι → Activity n Unit} {is : List ι}
    (h : ∀ i ∈ is, (visit i).Ensures P fun _ => True) :
    (forEach visit is).Ensures P fun _ => True := by
  induction is with
  | nil => trivial
  | cons i rest ih =>
    refine (h i (by simp)).andThen fun _ => ih ?_
    intro j hj
    exact h j (by simp [hj])

end Activity

/-! ### Activities on their way -/

/-- The condition on faults, for a chain on its way. -/
def Stage.Ensures (P : Fault → Prop) : Stage κ → Prop
  | .ready c => c.Ensures P
  | .calling _ _ _ next => ∀ a, (next a).Ensures P
  | .resting _ next => next.Ensures P
  | .queued next => next.Ensures P
  | .ended r => Meets P (fun _ => True) r

/-- The condition on faults, for the members of a group. -/
def Group.Ensures (P : Fault → Prop) (members : List (Member n κ)) : Prop :=
  ∀ m ∈ members, m.stage.Ensures P

/-- The conditions, for an activity on its way. -/
def Phase.Ensures (P : Fault → Prop) (Q : α → Prop) : Phase n α → Prop
  | .going a => a.Ensures P Q
  | .asking _ _ _ _ next => ∀ a, (next a).Ensures P Q
  | .pausing _ next => next.Ensures P Q
  | .grouped g next => Group.Ensures P g.members ∧ ∀ as, (next as).Ensures P Q

/-- The conditions, for an activity on its way and the actions it has started. -/
def Running.Ensures (P : Fault → Prop) (Q : α → Prop) (r : Running n α) : Prop :=
  Group.Ensures P r.launched ∧ r.phase.Ensures P Q

section

variable {P : Fault → Prop} {Q : α → Prop}

/-- One thing that a member of a group does keeps the condition. -/
theorem Member.move_ensures [ClientModel σ] {crew : Crew n} {w : World σ n} {m : Member n κ}
    (hclient : ∀ e, P (.client (crew.title m.who) e)) (h : m.stage.Ensures P) :
    (m.move crew w).1.stage.Ensures P := by
  unfold move
  split <;> rename_i hstage <;> rw [hstage] at h
  · trivial
  · exact h
  · exact h
  · exact h
  · exact h
  · -- A poll asks again after an answer that is not good enough, and goes on after one that is.
    intro a
    dsimp only
    split
    · exact h
    · exact h
  · exact h _
  · exact hclient _
  · exact h
  · exact h
  · rw [hstage]
    exact h

namespace Group

theorem ensures_nil : Ensures P ([] : List (Member n κ)) := by
  intro m hm
  cases hm

theorem move_ensures [ClientModel σ] {crew : Crew n} {w : World σ n} {g : Group n κ} {i : Nat}
    (hclient : ∀ title e, P (.client title e)) (h : Ensures P g.members) :
    Ensures P (g.move crew w i).1.members := by
  unfold move
  split
  · exact h
  · rename_i m hm
    intro m' hm'
    rcases List.mem_or_eq_of_mem_set hm' with hm' | rfl
    · exact h m' hm'
    · exact Member.move_ensures (hclient _) (h m (List.mem_of_getElem? hm))

theorem failure?_ensures {members : List (Member n κ)} {f : Fault} (h : Ensures P members)
    (hf : failure? members = some f) : P f := by
  induction members with
  | nil => cases hf
  | cons m rest ih =>
    rw [failure?] at hf
    split at hf
    · rename_i hstage
      cases hf
      have hm := h m (by simp)
      rw [hstage] at hm
      exact hm
    · exact ih (fun m' hm' => h m' (by simp [hm'])) hf

theorem collect_ensures {members : List (Member n κ)} {f : Fault} (h : Ensures P members)
    (hf : collect members = some (.error f)) : P f := by
  induction members with
  | nil => cases hf
  | cons m rest ih =>
    have hrest : Ensures P rest := fun m' hm' => h m' (by simp [hm'])
    rw [collect] at hf
    split at hf
    · rename_i hstage
      cases hf
      have hm := h m (by simp)
      rw [hstage] at hm
      exact hm
    · obtain ⟨result, hcollect, hmap⟩ := Option.map_eq_some_iff.mp hf
      cases result with
      | ok xs => cases hmap
      | error e =>
        cases hmap
        exact ih hrest hcollect
    · cases hf

theorem verdict_ensures {g : Group n κ} {f : Fault} (h : Ensures P g.members)
    (hf : g.verdict = some (.error f)) : P f := by
  unfold verdict at hf
  split at hf
  · split at hf
    · rename_i hfailure
      cases hf
      exact failure?_ensures h hfailure
    · exact collect_ensures h hf
  · exact collect_ensures h hf

end Group

/-- What one thing that an activity does has to satisfy. -/
def Advance.Ensures (P : Fault → Prop) (Q : α → Prop) : Advance σ n α → Prop
  | .moved _ r => r.Ensures P Q
  | .ended _ result => Meets P Q result
  | .waits _ => True

namespace Running

theorem wake_ensures {r : Running n α} (h : r.Ensures P Q) : r.wake.Ensures P Q := by
  obtain ⟨launched, phase⟩ := r
  cases phase <;> exact h

theorem advance_ensures [ClientModel σ] {crew : Crew n} {w : World σ n} {r : Running n α}
    (hclient : ∀ title e, P (.client title e)) (h : r.Ensures P Q) :
    (r.advance crew w).Ensures P Q := by
  obtain ⟨launched, phase⟩ := r
  obtain ⟨hlaunched, hphase⟩ := h
  cases phase with
  | going a =>
    cases a with
    | done x => exact hphase
    | fail f => exact hphase
    | ask who c next => exact ⟨hlaunched, hphase⟩
    | pause ms next => exact ⟨hlaunched, hphase⟩
    | launch who c next =>
      -- What was started makes one call and has nothing of its own to fail with.
      refine ⟨?_, hphase⟩
      intro m hm
      rcases List.mem_append.mp hm with hm | hm
      · exact hlaunched m hm
      · rw [List.mem_singleton.mp hm]
        exact fun _ => trivial
    | join next => exact ⟨Group.ensures_nil, hlaunched, fun _ => hphase⟩
    | gather chains next =>
      refine ⟨hlaunched, ?_, hphase.2⟩
      intro m hm
      obtain ⟨c, hc, rfl⟩ := List.mem_map.mp hm
      exact hphase.1 c hc
  | asking who c due result next =>
    simp only [advance]
    split
    · cases result with
      | ok a => exact ⟨hlaunched, hphase a⟩
      | error e => exact hclient _ _
    · trivial
  | pausing due next =>
    simp only [advance]
    split
    · exact ⟨hlaunched, hphase⟩
    · trivial
  | grouped g next =>
    simp only [advance]
    split
    · exact ⟨hlaunched, hphase.2 _⟩
    · rename_i hverdict
      exact Group.verdict_ensures hphase.1 hverdict
    · split
      · exact ⟨hlaunched, Group.move_ensures hclient hphase.1, hphase.2⟩
      · trivial

/-- What a run comes to satisfies the conditions. -/
theorem run_ensures [ClientModel σ] {crew : Crew n} {alarm : Alarm} {fuel : Nat} {w w' : World σ n}
    {r : Running n α} {result : Except Fault α} (hclient : ∀ title e, P (.client title e))
    (h : r.Ensures P Q) (hrun : r.run crew alarm fuel w = .ended w' result) : Meets P Q result := by
  induction fuel generalizing alarm w r with
  | zero => cases hrun
  | succ fuel ih =>
    have hadvance : (r.advance crew w).Ensures P Q := advance_ensures hclient h
    cases htick : r.tick crew alarm w with
    | on w₁ r₁ =>
      rw [run_succ_on_moved htick] at hrun
      rcases of_tick_on htick with hadv | ⟨till, t, -, rfl, rfl⟩
      · rw [hadv] at hadvance
        exact ih hadvance hrun
      · exact ih (wake_ensures h) hrun
    | halt o =>
      rw [run_succ_halt htick] at hrun
      subst hrun
      -- Of the ways in which a run halts, only coming to its end leads to a result.
      rcases of_tick_halt htick with ⟨w₁, result₁, hadv, ho⟩ | ⟨t, ho | ho⟩ | ho <;> cases ho
      rw [hadv] at hadvance
      exact hadvance

end Running

namespace Activity

variable [ClientModel σ] {crew : Crew n} {alarm : Alarm} {fuel : Nat} {w w' : World σ n}
  {a : Activity n α}

private theorem Ensures.running (h : a.Ensures P Q) : (Running.ofActivity a).Ensures P Q :=
  ⟨Group.ensures_nil, h⟩

/-- The result of a run satisfies the condition on results. -/
theorem Ensures.of_run_ok (hclient : ∀ title e, P (.client title e)) (h : a.Ensures P Q) {x : α}
    (hrun : a.run crew alarm fuel w = .ended w' (.ok x)) : Q x :=
  Running.run_ensures hclient h.running hrun

/-- The fault of a run satisfies the condition on faults. -/
theorem Ensures.of_run_error (hclient : ∀ title e, P (.client title e)) (h : a.Ensures P Q)
    {f : Fault} (hrun : a.run crew alarm fuel w = .ended w' (.error f)) : P f :=
  Running.run_ensures hclient h.running hrun

end Activity

end

end BotScript
