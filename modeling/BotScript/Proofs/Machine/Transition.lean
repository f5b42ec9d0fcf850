import BotScript.Proofs.Machine.Atomicity
import BotScript.Proofs.Machine.Operands

/-!
# What an instruction can do

The ways in which an instruction can change the machine, whatever its clients answer, and the faults
of control flow it can raise. All invariants of the machine are read off these two relations.

## Main definitions

* `Machine.Moves`: what an instruction can make of a machine.
* `Machine.Strays`: the fault of control flow that an instruction can raise.
* `Machine.Does`: an activity that does what an instruction can do.

## Main results

* `Machine.plan_does`: the plan of an instruction does what these relations say.
* `Machine.step_machine`: the machine after a step.
* `Machine.step_failed`: the machine after a failed step, and the fault.
-/

namespace BotScript

open Activity

/-- The instructions after which the machine goes on with the following one, whatever happens. -/
def Instruction.isPlain : Instruction → Bool
  | .sleep _ | .logLiteral _ | .logWindow .. | .label _ | .act .. | .loadPlaystyle .. | .nop => true
  | _ => false

namespace Machine

/-- What an instruction can make of a machine. -/
inductive Moves (m : Machine) : Instruction → Machine → Prop
  | kill : Moves m .kill m.kill
  | plain {i : Instruction} (h : i.isPlain = true) : Moves m i m.next
  /-- The innermost `until` loop is left at the end of its body. -/
  | leave {offset : Int64} {g : UntilGuard} {outer : List UntilGuard} (hg : m.guards = g :: outer)
      (hc : m.closes g = true) : Moves m (.jump offset) { m with guards := outer, ip := g.exit }
  | jump {offset : Int64} {place : Nat} (h : m.target offset = .ok place) :
      Moves m (.jump offset) (m.goTo place)
  | jumpIf {test : Expr} {offset : Int64} {place : Nat} (h : m.target offset = .ok place) :
      Moves m (.jumpIf test offset) (m.goTo place)
  | stayIf {test : Expr} {offset : Int64} : Moves m (.jumpIf test offset) m.next
  | jumpIfNot {test : Expr} {offset : Int64} {place : Nat} (h : m.target offset = .ok place) :
      Moves m (.jumpIfNot test offset) (m.goTo place)
  | stayIfNot {test : Expr} {offset : Int64} : Moves m (.jumpIfNot test offset) m.next
  | enterUntil {test : Expr} {offset : Int64} {exit : Nat} (h : m.target offset = .ok exit) :
      Moves m (.enterUntil test offset) { m.next with guards := ⟨test, exit⟩ :: m.guards }
  | call {name : String} {place : Nat} (h : m.program.labelBefore? m.ip name = some place) :
      Moves m (.call name) { m with calls := (m.ip + 1) :: m.calls, ip := place }
  | ret {place : Nat} {rest : List Nat} (h : m.calls = place :: rest) :
      Moves m .ret { m with calls := rest, ip := place }
  | assign {name : String} {e : Expr} (v : Value) :
      Moves m (.assign name e) { m.next with vars := m.vars.set name v }
  | decrement {name : String} (v : Value) :
      Moves m (.decrement name) { m.next with vars := m.vars.set name v }

/-- The fault of control flow that an instruction can raise: it has nowhere to go. -/
inductive Strays (m : Machine) : Instruction → Fault → Prop
  | jump {i : Instruction} {offset : Int64} {f : Fault} (hi : i.offset? = some offset)
      (h : m.target offset = .error f) : Strays m i f
  | call {name : String} (h : m.program.labelBefore? m.ip name = none) :
      Strays m (.call name) (.labelNotFound name)
  | ret (h : m.calls = []) : Strays m .ret .noCall

variable {n : Nat} {crew : Crew n} {m : Machine}

/-- An activity that does what an instruction can do: it makes of the machine what the instruction
can, and a fault of control flow is one that the instruction can raise. -/
def Does (m : Machine) (i : Instruction) (a : Activity n Effect) : Prop :=
  a.Ensures (fun f => f.IsControl → m.Strays i f) fun e => m.Moves i e.machine

/-! ### Instructions -/

/-- Work that cannot stray, after which the machine moves. -/
private theorem does_of_orderly {α : Type} {i : Instruction} {a : Activity n α}
    {f : α → Activity n Effect} (ha : a.Orderly)
    (hf : ∀ x, m.Does i (f x)) : m.Does i (a.bind f) :=
  (ha.mono (fun _ hf hcontrol => (hf hcontrol).elim) fun _ h => h).andThen hf

/-- A jump to a place that is there, or not. -/
private theorem does_leap {i : Instruction} {offset : Int64} (hi : i.offset? = some offset)
    (hmoves : ∀ place, m.target offset = .ok place → m.Moves i (m.goTo place)) :
    m.Does i (lift (m.leap offset) : Activity n Effect) := by
  rw [leap]
  cases ht : m.target offset with
  | ok place => exact hmoves place ht
  | error f => exact fun _ => .jump hi ht

/-- The plan of an instruction does what the relations say. -/
theorem plan_does (crew : Crew n) (every : Nat) (m : Machine) (i : Instruction) :
    m.Does i (m.plan crew every i) := by
  cases i with
  | kill => exact .kill
  | sleep duration =>
    have hrests : (duration.rest crew m.vars).Orderly :=
      ((duration.evalNumber_mere crew m.vars _).orderly).andThen fun seconds =>
        (ensures_lift (secondsOperand_mere _ seconds)).orderly.andThen fun _ => trivial
    exact does_of_orderly hrests fun _ => .plain rfl
  | logLiteral tokens => exact .plain rfl
  | logWindow who path =>
    rw [plan_logWindow]
    exact does_of_orderly (windowLines_orderly crew path _) fun _ => .plain rfl
  | jump offset =>
    have hleap : m.Does (.jump offset) (lift (m.leap offset) : Activity n Effect) :=
      does_leap rfl fun _ ht => .jump ht
    rw [plan_jump]
    split
    · rename_i g hback
      obtain ⟨hg, hc⟩ := backEdge?_eq_some.mp hback
      refine does_of_orderly (g.test.evalCondition_orderly crew m.vars) fun leaves => ?_
      cases leaves with
      | true => exact .leave hg hc
      | false => exact hleap
    · exact hleap
  | jumpIf test offset =>
    rw [plan_jumpIf]
    refine does_of_orderly (test.evalCondition_orderly crew m.vars) fun holds => ?_
    cases holds with
    | true => exact does_leap rfl fun _ ht => .jumpIf ht
    | false => exact .stayIf
  | jumpIfNot test offset =>
    rw [plan_jumpIfNot]
    refine does_of_orderly (test.evalCondition_orderly crew m.vars) fun holds => ?_
    cases holds with
    | true => exact .stayIfNot
    | false => exact does_leap rfl fun _ ht => .jumpIfNot ht
  | enterUntil test offset =>
    rw [plan_enterUntil]
    cases ht : m.target offset with
    | ok exit => exact .enterUntil ht
    | error f => exact fun _ => .jump rfl ht
  | label name => exact .plain rfl
  | ret =>
    rw [plan_ret]
    cases hcalls : m.calls with
    | nil => exact fun _ => .ret hcalls
    | cons place rest =>
      have hpop : m.pop.goTo place = { m with calls := rest, ip := place } := by
        rw [pop, hcalls]
        rfl
      change m.Moves .ret (m.pop.goTo place)
      rw [hpop]
      exact .ret hcalls
  | call name =>
    rw [plan_call, label]
    cases hlabel : m.program.labelBefore? m.ip name with
    | some place => exact .call hlabel
    | none => exact fun _ => .call hlabel
  | act who a => exact does_of_orderly (a.perform_orderly ..) fun _ => .plain rfl
  | loadPlaystyle who text => exact does_of_orderly (allDo_mere ..).orderly fun _ => .plain rfl
  | assign name e => exact does_of_orderly (e.eval_orderly crew m.vars) fun v => .assign v
  | decrement name =>
    rw [plan_decrement, lessOne]
    split
    · exact .decrement _
    · exact fun hcontrol => hcontrol.elim
    · exact fun hcontrol => hcontrol.elim
  | nop => exact .plain rfl

/-! ### Steps -/

variable {σ : Type} [ClientModel σ] {every : Nat} {alarm : Alarm} {fuel : Nat} {w w' : World σ n}
  {m' : Machine}

/-- Client failures are no faults of control flow. -/
private theorem client_not_control (m : Machine) (i : Instruction) (title : String)
    (e : ClientError) :
    (Fault.client title e).IsControl → m.Strays i (.client title e) :=
  fun hcontrol => hcontrol.elim

/-- The machine after a step: as before, or stopped behind its program, or moved by its
instruction. -/
theorem step_machine (crew : Crew n) (every : Nat) (alarm : Alarm) (fuel : Nat) (w : World σ n)
    (m : Machine) :
    let m' := (m.step crew every alarm fuel w).2.2
    m' = m ∨ m' = m.stop ∨
      ∃ i m₁, m.running = true ∧ m.instruction? = some i ∧ m.Moves i m₁ ∧ m' = m₁.settle := by
  dsimp only
  cases hrunning : m.running with
  | false =>
    rw [step_of_not_running hrunning]
    exact .inl rfl
  | true =>
    cases hi : m.instruction? with
    | none =>
      rw [step_of_end hrunning hi]
      exact .inr (.inl rfl)
    | some i =>
      rw [step_of_instruction hrunning hi]
      cases hrun : (m.plan crew every i).run crew alarm fuel w with
      | ended w' result =>
        cases result with
        | ok effect =>
          have hmoves := (plan_does crew every m i).of_run_ok (client_not_control m i) hrun
          exact .inr (.inr ⟨i, effect.machine, rfl, rfl, hmoves, rfl⟩)
        | error f => exact .inl rfl
      | cancelled w' => exact .inl rfl
      | expired w' => exact .inl rfl
      | never w' => exact .inl rfl
      | outOfFuel w' => exact .inl rfl

/-- A step that fails leaves the machine as it was; it writes no line, and a fault of control flow
comes from an instruction that has nowhere to go. -/
theorem step_failed {f : Fault} (h : m.step crew every alarm fuel w = (.failed f, w', m')) :
    m' = m ∧ w'.Follows w ∧ m.running = true ∧
      ∃ i, m.instruction? = some i ∧ (f.IsControl → m.Strays i f) := by
  cases hrunning : m.running with
  | false =>
    rw [step_of_not_running hrunning] at h
    cases h
  | true =>
    cases hi : m.instruction? with
    | none =>
      rw [step_of_end hrunning hi] at h
      cases h
    | some i =>
      rw [step_of_instruction hrunning hi] at h
      have hfollows := Running.run_follows crew alarm fuel w (.ofActivity (m.plan crew every i))
      rw [← Activity.run] at hfollows
      cases hrun : (m.plan crew every i).run crew alarm fuel w with
      | ended w₁ result =>
        rw [hrun] at h hfollows
        cases result with
        | ok effect =>
          simp only [conclude, Prod.mk.injEq] at h
          split at h <;> simp at h
        | error e =>
          cases h
          have hstrays := (plan_does crew every m i).of_run_error (client_not_control m i) hrun
          exact ⟨rfl, hfollows, rfl, i, rfl, hstrays⟩
      | cancelled w₁ =>
        rw [hrun] at h
        cases h
      | expired w₁ =>
        rw [hrun] at h
        cases h
      | never w₁ =>
        rw [hrun] at h
        cases h
      | outOfFuel w₁ =>
        rw [hrun] at h
        cases h

end Machine

end BotScript
