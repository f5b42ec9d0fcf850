import Mathlib.Data.List.Infix
import BotScript.Machine.Run
import BotScript.Proofs.Client.Cast
import BotScript.Proofs.Machine.Transition

/-!
# Runs, step by step

A run carries out instructions one after the other, so it is a number of complete steps followed by
one that ends it. The fuel only bounds how far the run is followed: with more of it, a run that has
ended ends in the same way, and one that has not has so far written a part of the same journal.

## Main definitions

* `Machine.Begins`: how a run begins.
* `Machine.Steps`: some instructions are carried out, one after the other.
* `Machine.Pending`: so much has happened, and the run is not over.

## Main results

* `Machine.runOn_eq_of_le`, `Machine.runOn_journal_suffix`: what more fuel does to a run.
* `Machine.Steps.runOn_add`: a run that begins with complete steps.
* `Machine.Pending.runOn_outOfFuel`, `Machine.Pending.exists_runOn`: runs that are not over.
* `Machine.runOn_failed`: a run that fails is some complete steps and one that fails.
* `Machine.failure_leaves_machine`: a failure leaves the machine as it was before the instruction.
-/

namespace BotScript.Machine

open Cast

/-! ### Steps and fuel -/

/-- Whether a step has carried out its instruction. -/
def StepResult.isDone : StepResult → Bool
  | goesOn _ | done _ => true
  | _ => false

theorem StepResult.ne_outOfFuel {r : StepResult} (h : r.isDone = true) : r ≠ .outOfFuel := by
  rintro rfl
  cases h

section Conclude

variable {σ : Type} {n : Nat} {m : Machine}

/-- A step lacks fuel exactly if its plan does. -/
theorem conclude_outOfFuel {o : Outcome σ n Effect} :
    (m.conclude o).1 = .outOfFuel ↔ ¬ o.IsFinal := by
  cases o with
  | ended w' result =>
    cases result with
    | ok effect =>
      simp only [conclude, Outcome.IsFinal, not_true, iff_false]
      split <;> simp
    | error f => simp [conclude, Outcome.IsFinal]
  | cancelled w' => simp [conclude, Outcome.IsFinal]
  | expired w' => simp [conclude, Outcome.IsFinal]
  | never w' => simp [conclude, Outcome.IsFinal]
  | outOfFuel w' => simp [conclude, Outcome.IsFinal]

/-- A step writes down what its plan does, and the lines of its instruction. -/
theorem journal_suffix_conclude (o : Outcome σ n Effect) :
    o.world.journal <:+ (m.conclude o).2.1.journal := by
  cases o with
  | ended w' result =>
    cases result with
    | ok effect => exact w'.journal_suffix_log effect.lines
    | error f => exact List.suffix_rfl
  | cancelled w' => exact List.suffix_rfl
  | expired w' => exact List.suffix_rfl
  | never w' => exact List.suffix_rfl
  | outOfFuel w' => exact List.suffix_rfl

/-- A step that lacks fuel has written down what its plan has, and no lines. -/
theorem conclude_world {o : Outcome σ n Effect} (h : ¬ o.IsFinal) :
    (m.conclude o).2.1 = o.world := by
  cases o with
  | outOfFuel w' => rfl
  | _ => exact absurd trivial h

end Conclude

variable {σ : Type} {n : Nat} [ClientModel σ] {crew : Crew n} {every : Nat} {alarm : Alarm}
  {expire : Option Nat} {less fuel : Nat} {w w' w₁ : World σ n} {m m' m₁ : Machine} {r : StepResult}

/-- A step carries out the plan of an instruction, or there is nothing to do. -/
theorem step_cases (crew : Crew n) (every : Nat) (alarm : Alarm) (w : World σ n) (m : Machine) :
    (∃ i, ∀ fuel, m.step crew every alarm fuel w =
        m.conclude ((m.plan crew every i).run crew alarm fuel w)) ∨
      ∃ m', ∀ fuel, m.step crew every alarm fuel w = (.done 0, w, m') := by
  cases hrunning : m.running with
  | false => exact .inr ⟨m, fun fuel => step_of_not_running hrunning⟩
  | true =>
    cases hi : m.instruction? with
    | none => exact .inr ⟨m.stop, fun fuel => step_of_end hrunning hi⟩
    | some i => exact .inl ⟨i, fun fuel => step_of_instruction hrunning hi⟩

/-- More fuel keeps how a step ended. -/
theorem step_eq_of_le (hle : less ≤ fuel) (h : m.step crew every alarm less w = (r, w₁, m₁))
    (hr : r ≠ .outOfFuel) : m.step crew every alarm fuel w = (r, w₁, m₁) := by
  rcases step_cases crew every alarm w m with ⟨i, hstep⟩ | ⟨m', hstep⟩
  · rw [hstep] at h
    have hne : (m.conclude ((m.plan crew every i).run crew alarm less w)).1 ≠ .outOfFuel := by
      rwa [h]
    have hfinal := Classical.not_not.mp (mt conclude_outOfFuel.mpr hne)
    rw [hstep, Activity.run, Running.run_eq_of_isFinal hle hfinal]
    exact h
  · rw [hstep] at h ⊢
    exact h

/-- A step has one end, whatever its fuel. -/
theorem step_unique {r' : StepResult} {w₂ : World σ n} {m₂ : Machine}
    (h : m.step crew every alarm less w = (r, w₁, m₁)) (hr : r ≠ .outOfFuel)
    (h' : m.step crew every alarm fuel w = (r', w₂, m₂)) (hr' : r' ≠ .outOfFuel) :
    (r, w₁, m₁) = (r', w₂, m₂) := by
  rcases Nat.le_total less fuel with hle | hle
  · rw [← h', step_eq_of_le hle h hr]
  · rw [← h, step_eq_of_le hle h' hr']

/-- A step that carries out its instruction is one of a plan that has come to a result. -/
theorem run_of_isDone {i : Instruction} (hrunning : m.running = true) (hi : m.instruction? = some i)
    (hstep : m.step crew every alarm fuel w = (r, w₁, m₁)) (hr : r.isDone = true) :
    ∃ u effect, (m.plan crew every i).run crew alarm fuel w = .ended u (.ok effect) ∧
      w₁ = u.log effect.lines ∧ m₁ = effect.machine.settle := by
  rw [step_of_instruction hrunning hi] at hstep
  cases hrun : (m.plan crew every i).run crew alarm fuel w with
  | ended u result =>
    rw [hrun] at hstep
    cases result with
    | ok effect =>
      simp only [conclude, Prod.mk.injEq] at hstep
      exact ⟨u, effect, rfl, hstep.2.1.symm, hstep.2.2.symm⟩
    | error f =>
      cases hstep
      cases hr
  | cancelled | expired | never | outOfFuel =>
    rw [hrun] at hstep
    cases hstep
    cases hr

/-- A step that carries out its instruction does what the instruction can do. -/
theorem moves_of_isDone {i : Instruction} (hrunning : m.running = true)
    (hi : m.instruction? = some i) (hstep : m.step crew every alarm fuel w = (r, w₁, m₁))
    (hr : r.isDone = true) :
    ∃ m', m.Moves i m' ∧ m₁ = m'.settle := by
  obtain ⟨u, effect, hrun, -, hm₁⟩ := run_of_isDone hrunning hi hstep hr
  exact ⟨effect.machine,
    (plan_does crew every m i).of_run_ok (fun _ _ hcontrol => hcontrol.elim) hrun, hm₁⟩

/-- A step that does not carry out its instruction leaves the machine as it was. -/
theorem machine_of_not_isDone (hstep : m.step crew every alarm fuel w = (r, w₁, m₁))
    (hr : r.isDone = false) : m₁ = m := by
  rcases step_cases crew every alarm w m with ⟨i, hplan⟩ | ⟨m', hidle⟩
  · rw [hplan] at hstep
    cases hrun : (m.plan crew every i).run crew alarm fuel w with
    | ended u result =>
      rw [hrun] at hstep
      cases result with
      | ok effect =>
        simp only [conclude, Prod.mk.injEq] at hstep
        rw [← hstep.1] at hr
        split at hr <;> cases hr
      | error f =>
        cases hstep
        rfl
    | cancelled | expired | never | outOfFuel =>
      rw [hrun] at hstep
      cases hstep
      rfl
  · rw [hidle] at hstep
    cases hstep
    cases hr

/-- A step writes on in the journal. -/
theorem journal_suffix_step (crew : Crew n) (every : Nat) (alarm : Alarm) (fuel : Nat)
    (w : World σ n) (m : Machine) : w.journal <:+ (m.step crew every alarm fuel w).2.1.journal := by
  rcases step_cases crew every alarm w m with ⟨i, hstep⟩ | ⟨m', hstep⟩
  · have hrun := Running.run_follows crew alarm fuel w (.ofActivity (m.plan crew every i))
    rw [hstep]
    exact hrun.journal_suffix.trans (journal_suffix_conclude _)
  · rw [hstep]

/-- With more fuel, a step writes down at least as much. -/
theorem step_journal_suffix (crew : Crew n) (every : Nat) (alarm : Alarm) (hle : less ≤ fuel)
    (w : World σ n) (m : Machine) :
    (m.step crew every alarm less w).2.1.journal <:+
      (m.step crew every alarm fuel w).2.1.journal := by
  by_cases hless : (m.step crew every alarm less w).1 = .outOfFuel
  · rcases step_cases crew every alarm w m with ⟨i, hstep⟩ | ⟨m', hstep⟩
    · -- A step that lacks fuel has written no lines, only what its plan has done so far.
      have hgrows := Running.run_world_follows crew alarm hle w (.ofActivity (m.plan crew every i))
      rw [hstep] at hless
      rw [hstep, hstep, conclude_world (conclude_outOfFuel.mp hless)]
      exact hgrows.journal_suffix.trans (journal_suffix_conclude _)
    · rw [hstep, hstep]
  · rw [step_eq_of_le hle rfl hless]
    exact List.suffix_rfl

/-! ### Runs and fuel -/

/-- How a run ends with a step that is its last. -/
def halt (w : World σ n) (m : Machine) : StepResult → RunResult × World σ n × Machine
  | .failed f => (.failed f, w, m.stop)
  | .cancelled => (.done, w, m.stop)
  | .expired => (.expired, w, m)
  | .never => (.never, w, m)
  | .outOfFuel => (.outOfFuel, w, m)
  | .goesOn _ | .done _ => (.done, w, m)

omit [ClientModel σ] in
theorem halt_world (w : World σ n) (m : Machine) (r : StepResult) : (m.halt w r).2.1 = w := by
  cases r <;> rfl

omit [ClientModel σ] in
theorem halt_outOfFuel {w : World σ n} (h : (m.halt w r).1 = .outOfFuel) : r = .outOfFuel := by
  cases r <;> first | rfl | cases h

theorem runOn_of_not_running (h : m.running = false) :
    m.runOn crew every expire (fuel + 1) w = (.done, w, m) := by
  simp [runOn, h]

/-- A run goes on after a step that carries out its instruction. -/
theorem runOn_of_isDone (hrunning : m.running = true)
    (hstep : m.step crew every ⟨none, expire⟩ fuel w = (r, w₁, m₁)) (hr : r.isDone = true) :
    m.runOn crew every expire (fuel + 1) w = m₁.runOn crew every expire fuel w₁ := by
  rw [runOn, if_pos hrunning, hstep]
  cases r with
  | goesOn lines => rfl
  | done lines => rfl
  | _ => cases hr

/-- A run ends with any other step. -/
theorem runOn_of_not_isDone (hrunning : m.running = true)
    (hstep : m.step crew every ⟨none, expire⟩ fuel w = (r, w₁, m₁)) (hr : r.isDone = false) :
    m.runOn crew every expire (fuel + 1) w = m₁.halt w₁ r := by
  rw [runOn, if_pos hrunning, hstep]
  cases r with
  | goesOn lines => cases hr
  | done lines => cases hr
  | _ => rfl

/-- How a run begins: the machine is not running, or its first step carries out an instruction, or
its first step is the last one. -/
inductive Begins (crew : Crew n) (every : Nat) (expire : Option Nat) (fuel : Nat) (w : World σ n)
    (m : Machine) : Prop
  | idle (hidle : m.running = false)
  | goesOn {r : StepResult} {w₁ : World σ n} {m₁ : Machine} (hrunning : m.running = true)
      (hstep : m.step crew every ⟨none, expire⟩ fuel w = (r, w₁, m₁)) (hr : r.isDone = true)
  | halts {r : StepResult} {w₁ : World σ n} {m₁ : Machine} (hrunning : m.running = true)
      (hstep : m.step crew every ⟨none, expire⟩ fuel w = (r, w₁, m₁)) (hr : r.isDone = false)

theorem begins (crew : Crew n) (every : Nat) (expire : Option Nat) (fuel : Nat) (w : World σ n)
    (m : Machine) : Begins crew every expire fuel w m := by
  cases hrunning : m.running with
  | false => exact .idle hrunning
  | true =>
    cases hr : (m.step crew every ⟨none, expire⟩ fuel w).1.isDone with
    | true => exact .goesOn hrunning rfl hr
    | false => exact .halts hrunning rfl hr

/-- More fuel keeps how a run ended. -/
theorem runOn_eq_of_le (hle : less ≤ fuel) (h : (m.runOn crew every expire less w).1 ≠ .outOfFuel) :
    m.runOn crew every expire fuel w = m.runOn crew every expire less w := by
  induction less generalizing fuel w m with
  | zero => exact absurd rfl h
  | succ less ih =>
    obtain ⟨fuel, rfl⟩ := Nat.exists_eq_add_of_le' (Nat.one_le_of_lt hle)
    have hle' := Nat.le_of_succ_le_succ hle
    cases begins crew every expire less w m with
    | idle hidle => rw [runOn_of_not_running hidle, runOn_of_not_running hidle]
    | goesOn hrunning hless hr =>
      have hstep := step_eq_of_le hle' hless (StepResult.ne_outOfFuel hr)
      rw [runOn_of_isDone hrunning hless hr] at h ⊢
      rw [runOn_of_isDone hrunning hstep hr]
      exact ih hle' h
    | halts hrunning hless hr =>
      rw [runOn_of_not_isDone hrunning hless hr] at h ⊢
      have hstep := step_eq_of_le hle' hless fun hr' => h (by rw [hr']; rfl)
      rw [runOn_of_not_isDone hrunning hstep hr]

/-- A run ends in one way only. -/
theorem runOn_unique (h : (m.runOn crew every expire less w).1 ≠ .outOfFuel)
    (h' : (m.runOn crew every expire fuel w).1 ≠ .outOfFuel) :
    m.runOn crew every expire less w = m.runOn crew every expire fuel w := by
  rw [← runOn_eq_of_le (Nat.le_max_left less fuel) h,
    runOn_eq_of_le (Nat.le_max_right less fuel) h']

/-- A run writes on in the journal. -/
theorem journal_suffix_runOn (crew : Crew n) (every : Nat) (expire : Option Nat) (fuel : Nat)
    (w : World σ n) (m : Machine) :
    w.journal <:+ (m.runOn crew every expire fuel w).2.1.journal := by
  induction fuel generalizing w m with
  | zero => exact List.suffix_rfl
  | succ fuel ih =>
    have hfirst := journal_suffix_step crew every ⟨none, expire⟩ fuel w m
    cases begins crew every expire fuel w m with
    | idle hidle => rw [runOn_of_not_running hidle]
    | goesOn hrunning hstep hr =>
      rw [hstep] at hfirst
      rw [runOn_of_isDone hrunning hstep hr]
      exact hfirst.trans (ih _ _)
    | halts hrunning hstep hr =>
      rw [hstep] at hfirst
      rwa [runOn_of_not_isDone hrunning hstep hr, halt_world]

/-- A run writes down what its first step does. -/
theorem step_journal_suffix_runOn (hrunning : m.running = true) :
    (m.step crew every ⟨none, expire⟩ fuel w).2.1.journal <:+
      (m.runOn crew every expire (fuel + 1) w).2.1.journal := by
  cases begins crew every expire fuel w m with
  | idle hidle =>
    rw [hidle] at hrunning
    cases hrunning
  | goesOn _ hstep hr =>
    rw [runOn_of_isDone hrunning hstep hr, hstep]
    exact journal_suffix_runOn ..
  | halts _ hstep hr => rw [runOn_of_not_isDone hrunning hstep hr, hstep, halt_world]

/-- With more fuel, a run writes down at least as much. -/
theorem runOn_journal_suffix (crew : Crew n) (every : Nat) (expire : Option Nat) (hle : less ≤ fuel)
    (w : World σ n) (m : Machine) :
    (m.runOn crew every expire less w).2.1.journal <:+
      (m.runOn crew every expire fuel w).2.1.journal := by
  induction less generalizing fuel w m with
  | zero => exact journal_suffix_runOn crew every expire fuel w m
  | succ less ih =>
    obtain ⟨fuel, rfl⟩ := Nat.exists_eq_add_of_le' (Nat.one_le_of_lt hle)
    have hle' := Nat.le_of_succ_le_succ hle
    cases begins crew every expire less w m with
    | idle hidle => rw [runOn_of_not_running hidle, runOn_of_not_running hidle]
    | goesOn hrunning hless hr =>
      have hstep := step_eq_of_le hle' hless (StepResult.ne_outOfFuel hr)
      rw [runOn_of_isDone hrunning hless hr, runOn_of_isDone hrunning hstep hr]
      exact ih hle' _ _
    | halts hrunning hless hr =>
      have hfirst := step_journal_suffix crew every ⟨none, expire⟩ hle' w m
      rw [hless] at hfirst
      rw [runOn_of_not_isDone hrunning hless hr, halt_world]
      exact hfirst.trans (step_journal_suffix_runOn hrunning)

/-! ### Complete steps -/

/-- Some instructions are carried out, one after the other. -/
inductive Steps (crew : Crew n) (every : Nat) (expire : Option Nat) :
    Nat → World σ n → Machine → World σ n → Machine → Prop
  | refl (w : World σ n) (m : Machine) : Steps crew every expire 0 w m w m
  | next {k fuel : Nat} {r : StepResult} {w w₁ w' : World σ n} {m m₁ m' : Machine}
      (hrunning : m.running = true) (hstep : m.step crew every ⟨none, expire⟩ fuel w = (r, w₁, m₁))
      (hr : r.isDone = true) (hrest : Steps crew every expire k w₁ m₁ w' m') :
      Steps crew every expire (k + 1) w m w' m'

variable {j k count : Nat}

theorem Steps.trans (h : Steps crew every expire j w m w₁ m₁)
    (h' : Steps crew every expire k w₁ m₁ w' m') : Steps crew every expire (j + k) w m w' m' := by
  induction h with
  | refl w m =>
    rw [Nat.zero_add]
    exact h'
  | next hrunning hstep hr _ ih =>
    rw [Nat.add_right_comm]
    exact .next hrunning hstep hr (ih h')

theorem Steps.journal_suffix (h : Steps crew every expire k w m w' m') :
    w.journal <:+ w'.journal := by
  induction h with
  | refl w m => exact List.suffix_rfl
  | @next k fuel r w w₁ w' m m₁ m' _ hstep _ _ ih =>
    have hfirst := journal_suffix_step crew every ⟨none, expire⟩ fuel w m
    rw [hstep] at hfirst
    exact hfirst.trans ih

/-- A run with enough fuel for some complete steps goes on from where they lead. -/
theorem Steps.runOn_add (h : Steps crew every expire k w m w' m') :
    ∃ enough, ∀ fuel, enough ≤ fuel →
      m.runOn crew every expire (fuel + k) w = m'.runOn crew every expire fuel w' := by
  induction h with
  | refl w m => exact ⟨0, fun fuel _ => rfl⟩
  | @next k need r w w₁ w' m m₁ m' hrunning hstep hr _ ih =>
    obtain ⟨enough, henough⟩ := ih
    -- Enough for the first step, and for the others behind it.
    refine ⟨max enough need, fun fuel hfuel => ?_⟩
    have hneed : need ≤ fuel + k := by omega
    have hmore := step_eq_of_le hneed hstep (StepResult.ne_outOfFuel hr)
    rw [← Nat.add_assoc, runOn_of_isDone hrunning hmore hr]
    exact henough fuel (by omega)

/-- So much has happened of a run that is not over: some complete steps, and then a part of the next
ones for which some fuel does not suffice. -/
def Pending (crew : Crew n) (every : Nat) (expire : Option Nat) (count : Nat) (w : World σ n)
    (m : Machine) (w' : World σ n) : Prop :=
  ∃ k fuel w₁ m₁ m', Steps crew every expire k w m w₁ m₁ ∧ count ≤ k + fuel ∧
    m₁.runOn crew every expire fuel w₁ = (.outOfFuel, w', m')

/-- A run that is not over lacks fuel, and has not written down more. -/
theorem Pending.runOn_outOfFuel (h : Pending crew every expire count w m w')
    (hfuel : fuel ≤ count) :
    (m.runOn crew every expire fuel w).1 = .outOfFuel ∧
      (m.runOn crew every expire fuel w).2.1.journal <:+ w'.journal := by
  obtain ⟨k, rest, w₁, m₁, m', hsteps, hcount, hrest⟩ := h
  replace hfuel : fuel ≤ k + rest := by omega
  clear hcount
  -- By the complete steps: each of them takes at least one from the fuel.
  induction hsteps generalizing fuel with
  | refl w m =>
    rw [Nat.zero_add] at hfuel
    have hgrows := runOn_journal_suffix crew every expire hfuel w m
    rw [hrest] at hgrows
    refine ⟨Classical.byContradiction fun hne => ?_, hgrows⟩
    have heq := runOn_eq_of_le hfuel hne
    rw [hrest] at heq
    exact hne (by rw [← heq])
  | @next k need r w w₂ w₁ m m₂ m₁ hrunning hstep hr htail ih =>
    have hend : w₂.journal <:+ w'.journal := by
      have hgrows := journal_suffix_runOn crew every expire rest w₁ m₁
      rw [hrest] at hgrows
      exact htail.journal_suffix.trans hgrows
    cases fuel with
    | zero =>
      have hfirst := journal_suffix_step crew every ⟨none, expire⟩ need w m
      rw [hstep] at hfirst
      exact ⟨rfl, hfirst.trans hend⟩
    | succ fuel =>
      -- Either the fuel suffices for the first step, or it is the first step that lacks it.
      obtain ⟨r', w₃, m₃, hless⟩ :
          ∃ r' w₃ m₃, m.step crew every ⟨none, expire⟩ fuel w = (r', w₃, m₃) := ⟨_, _, _, rfl⟩
      rcases Nat.le_total need fuel with hle | hle
      · rw [runOn_of_isDone hrunning (step_eq_of_le hle hstep (StepResult.ne_outOfFuel hr)) hr]
        exact ih hrest (by omega)
      · by_cases hr' : r' = .outOfFuel
        · subst hr'
          have hfirst := step_journal_suffix crew every ⟨none, expire⟩ hle w m
          rw [hless, hstep] at hfirst
          rw [runOn_of_not_isDone hrunning hless rfl]
          exact ⟨rfl, hfirst.trans hend⟩
        · have hsame := step_eq_of_le hle hless hr'
          rw [hstep] at hsame
          cases hsame
          rw [runOn_of_isDone hrunning hless hr]
          exact ih hrest (by omega)

/-- What has happened so far is written down by some run. -/
theorem Pending.exists_runOn (h : Pending crew every expire count w m w') :
    ∃ fuel, w'.journal <:+ (m.runOn crew every expire fuel w).2.1.journal := by
  obtain ⟨k, fuel, w₁, m₁, m', hsteps, -, hrest⟩ := h
  obtain ⟨enough, henough⟩ := hsteps.runOn_add
  refine ⟨max enough fuel + k, ?_⟩
  have hgrows := runOn_journal_suffix crew every expire (Nat.le_max_right enough fuel) w₁ m₁
  rw [hrest] at hgrows
  rw [henough _ (Nat.le_max_left enough fuel)]
  exact hgrows

theorem Pending.after_steps (hsteps : Steps crew every expire j w m w₁ m₁)
    (h : Pending crew every expire count w₁ m₁ w') :
    Pending crew every expire (j + count) w m w' := by
  obtain ⟨k, fuel, w₂, m₂, m', hsteps', hcount, hrest⟩ := h
  exact ⟨j + k, fuel, w₂, m₂, m', hsteps.trans hsteps', by omega, hrest⟩

theorem Pending.mono (h : Pending crew every expire count w m w') (hle : k ≤ count) :
    Pending crew every expire k w m w' := by
  obtain ⟨j, fuel, w₁, m₁, m', hsteps, hcount, hrest⟩ := h
  exact ⟨j, fuel, w₁, m₁, m', hsteps, by omega, hrest⟩

/-! ### Runs that fail -/

/-- A run that fails is some complete steps and one that fails, after which the machine
is stopped. -/
theorem runOn_failed {f : Fault} (h : m.runOn crew every expire fuel w = (.failed f, w', m')) :
    ∃ k w₁ m₁ last, Steps crew every expire k w m w₁ m₁ ∧
      m₁.step crew every ⟨none, expire⟩ last w₁ = (.failed f, w', m₁) ∧ m' = m₁.stop := by
  induction fuel generalizing w m with
  | zero => cases h
  | succ fuel ih =>
    cases begins crew every expire fuel w m with
    | idle hidle =>
      rw [runOn_of_not_running hidle] at h
      cases h
    | goesOn hrunning hstep hr =>
      rw [runOn_of_isDone hrunning hstep hr] at h
      obtain ⟨k, w₂, m₂, last, hsteps, hlast, hm'⟩ := ih h
      exact ⟨k + 1, w₂, m₂, last, .next hrunning hstep hr hsteps, hlast, hm'⟩
    | @halts r w₁ m₁ hrunning hstep hr =>
      rw [runOn_of_not_isDone hrunning hstep hr] at h
      cases r with
      | failed f' =>
        cases h
        obtain ⟨rfl, -⟩ := step_failed hstep
        exact ⟨0, w, m₁, fuel, .refl w m₁, hstep, rfl⟩
      | goesOn lines => cases hr
      | done lines => cases hr
      | cancelled => cases h
      | expired => cases h
      | never => cases h
      | outOfFuel => cases h

/-- A step that fails leaves the machine as it was and writes no line. A run that fails leaves the
machine as it was before the instruction that failed, but for being stopped, so that running it
again takes up the same instruction. -/
theorem failure_leaves_machine (crew : Crew n) (every : Nat) (w : World σ n) (m : Machine) :
    (∀ alarm fuel f w' m', m.step crew every alarm fuel w = (.failed f, w', m') →
      m' = m ∧ w'.lines = w.lines) ∧
    ∀ expire fuel f w' m', m.run crew every expire fuel w = (.failed f, w', m') →
      ∃ k w₁ m₁ last i, Steps crew every expire k w m.start w₁ m₁ ∧
        m₁.running = true ∧ m₁.instruction? = some i ∧
        m₁.step crew every ⟨none, expire⟩ last w₁ = (.failed f, w', m₁) ∧ w'.lines = w₁.lines ∧
        m' = m₁.stop ∧ ∀ (fuel : Nat) (w : World σ n),
          m'.run crew every expire fuel w = m₁.runOn crew every expire fuel w := by
  constructor
  · intro alarm fuel f w' m' hstep
    obtain ⟨hm', hfollows, -⟩ := step_failed hstep
    exact ⟨hm', hfollows.lines_eq⟩
  · intro expire fuel f w' m' hrun
    obtain ⟨k, w₁, m₁, last, hsteps, hlast, rfl⟩ := runOn_failed hrun
    obtain ⟨-, hfollows, hrunning, i, hi, -⟩ := step_failed hlast
    -- Stopping a machine that was running and starting it again gives it back as it was.
    have hagain : m₁.stop.start = m₁ := by
      obtain ⟨program, ip, calls, guards, vars, running, killed⟩ := m₁
      cases hrunning
      rfl
    refine ⟨k, w₁, m₁, last, i, hsteps, hrunning, hi, hlast, hfollows.lines_eq, rfl,
      fun fuel w => ?_⟩
    rw [run, hagain]

/-- A loop in which all clients use a potion. -/
def drinkingLoop : Program := ⟨[.enterUntil allFight 3, .act .all .usePotion, .jump (-1), .nop]⟩

/-- The machine that failed in the test of its loop. -/
def failedInLoop : Machine := ⟨drinkingLoop, 2, [], [⟨allFight, 3⟩], [], false, false⟩

/-- The loop fails at its jump back, after one client has answered, and is taken up there again,
still within the loop. -/
theorem failedInLoop_retries :
    let run := (idle.load drinkingLoop).run pair 100 none 30 dazed
    run = (.failed (.client "p2" (.failed "battle" "no")), run.2.1, failedInLoop) ∧
      run.2.1.history.map (Event.render pair) = ["0 p1 usepotion >", "0 p2 usepotion >",
        "20 p2 usepotion =", "50 p1 usepotion =", "50 p1 battle >", "100 p1 battle = true",
        "100 p2 battle >", "120 p2 battle !"] ∧
      ∃ m₁ : Machine, m₁.instruction? = some (.jump (-1)) ∧ m₁.guards = [⟨allFight, 3⟩] ∧
        ∀ (fuel : Nat) (w : World Rehearsal 2),
          failedInLoop.run pair 100 none fuel w = m₁.runOn pair 100 none fuel w := by
  intro run
  refine ⟨rfl, rfl, ?_⟩
  obtain ⟨-, hrun⟩ := failure_leaves_machine pair 100 dazed (idle.load drinkingLoop)
  obtain ⟨k, w₁, m₁, last, i, -, -, -, -, -, hm', hagain⟩ := hrun none 30 _ run.2.1 failedInLoop rfl
  have hsame : m₁.stop.instruction? = some (.jump (-1)) ∧ m₁.stop.guards = [⟨allFight, 3⟩] := by
    rw [← hm']
    exact ⟨rfl, rfl⟩
  exact ⟨m₁, hsame.1, hsame.2, hagain⟩

end BotScript.Machine
