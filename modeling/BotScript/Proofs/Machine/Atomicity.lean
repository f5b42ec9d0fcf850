import Mathlib.Tactic.Choose
import BotScript.Machine.Step
import BotScript.Proofs.Activity.Sequel

/-!
# Instructions are atomic

An instruction may fail, and wherever it waits it may be stopped. If it has changed the machine or
written a line by then, this stays. Every instruction does all that can fail, and all its waiting,
first; only then does it change the machine and write lines. A return is no exception, though it
takes the newest call off before it knows whether there is one: it fails only where there is nothing
to take off.

So a step does with the machine either all that its instruction does, or nothing. It can be told in
another way: carry out an activity that results in the machine and the lines, and put them in place
at the end.

## Main definitions

* `Routine.Commits`: a routine does not wait, and fails only where nothing has been done.
* `Routine.Atomic`: a routine looks at the machine, waits once at most, and then commits.
* `Routine.plan`, `Machine.plan`: the activity that results in what is put in place at the end.
* `Machine.conclude`: put it in place.

## Main results

* `Instruction.routine_atomic`: every instruction is atomic.
* `Routine.Atomic.run_eq`: an atomic routine is its plan, put in place at the end.
* `Machine.step_of_instruction`: so is a step.
-/

namespace BotScript

open Activity

/-- What comes of an instruction: the machine after it, and the lines it writes. -/
structure Effect where
  machine : Machine
  lines : List String

variable {σ : Type} {n : Nat} {α β : Type}

namespace Routine

/-! ### Atomic routines -/

/-- A routine that has made a machine out of `m₀` and written some lines so far does not wait any
more, and fails only if the machine is still `m₀` and no line has been written. -/
def Commits (m₀ : Machine) : Machine → List String → Routine n α → Prop
  | _, _, done _ => True
  | m, lines, fail _ => m = m₀ ∧ lines = []
  | m, lines, look f next => (next (f m)).Commits m₀ m lines
  | _, _, wait _ _ => False
  | m, lines, change f next => next.Commits m₀ (f m) lines
  | m, lines, write line next => next.Commits m₀ m (lines ++ [line])

/-- A routine looks at the machine, waits once at most, and then commits: whenever it fails or
waits, the machine is as it was and no line has been written. -/
def Atomic (m : Machine) : Routine n α → Prop
  | look f next => (next (f m)).Atomic m
  | wait _ next => ∀ x, (next x).Commits m m []
  | r => r.Commits m m []

variable {m m₀ : Machine} {lines : List String}

theorem Commits.atomic {r : Routine n α} (h : r.Commits m m []) : r.Atomic m := by
  induction r with
  | look f next ih => exact ih (f m) h
  | wait a next => exact h.elim
  | done | fail | change | write => exact h

/-- What is checked while nothing has been done may fail. -/
theorem commits_check {e : Except Fault α} {next : α → Routine n β}
    (h : ∀ x, (next x).Commits m m []) : ((check e).bind next).Commits m m [] := by
  cases e with
  | ok x => exact h x
  | error f => exact ⟨rfl, rfl⟩

theorem atomic_get {f : Machine → α} {x : α} {next : α → Routine n β} (hx : f m = x)
    (h : (next x).Atomic m) : ((get f).bind next).Atomic m := by
  subst hx
  exact h

theorem commits_writeAll {next : Unit → Routine n β} (more : List String)
    (h : (next ()).Commits m₀ m (lines ++ more)) :
    ((writeAll more).bind next).Commits m₀ m lines := by
  induction more generalizing lines with
  | nil => rwa [List.append_nil] at h
  | cons line rest ih =>
    refine ih ?_
    rwa [List.append_assoc]

end Routine

namespace Instruction

open Routine

variable (crew : Crew n) (m : Machine)

theorem jumpBy_commits (offset : Int64) : (jumpBy offset : Routine n Unit).Commits m m [] :=
  commits_check fun _ => trivial

/-- Every instruction is atomic. -/
theorem routine_atomic (every : Nat) (i : Instruction) : (i.routine crew every).Atomic m := by
  cases i with
  | kill => trivial
  | sleep duration => exact fun _ => trivial
  | logLiteral tokens => trivial
  | logWindow who path => exact fun lines => commits_writeAll lines trivial
  | jump offset =>
    -- The loop is left only once its condition is known to hold.
    cases hback : m.backEdge? with
    | some g =>
      refine atomic_get hback fun leaves => ?_
      cases leaves with
      | true => trivial
      | false => exact jumpBy_commits m offset
    | none => exact atomic_get hback (jumpBy_commits m offset).atomic
  | jumpIf test offset =>
    intro holds
    cases holds with
    | true => exact jumpBy_commits m offset
    | false => trivial
  | jumpIfNot test offset =>
    intro holds
    cases holds with
    | true => trivial
    | false => exact jumpBy_commits m offset
  | enterUntil test offset => exact Commits.atomic (commits_check fun _ => trivial)
  | label name => trivial
  | nop => trivial
  | call name => exact Commits.atomic (commits_check fun _ => trivial)
  | ret =>
    -- Without a call, taking off the newest one changes nothing.
    cases hcalls : m.calls with
    | nil =>
      have hpop : m.pop = m := by rw [Machine.pop, hcalls, List.tail_nil, ← hcalls]
      exact atomic_get (congrArg List.head? hcalls) ⟨hpop, rfl⟩
    | cons place rest => exact atomic_get (congrArg List.head? hcalls) trivial
  | act who a => exact fun _ => trivial
  | loadPlaystyle who text => exact fun _ => trivial
  | assign name e => exact fun _ => trivial
  | decrement name => exact Commits.atomic (commits_check fun _ => trivial)

end Instruction

/-! ### Plans -/

/-- The activity that results in the machine a routine makes of a machine and in the lines it
writes, added to those written so far. -/
def Routine.plan : Routine n Unit → Machine → List String → Activity n Effect
  | done (), m, lines => .done ⟨m, lines⟩
  | fail f, _, _ => .fail f
  | look f next, m, lines => (next (f m)).plan m lines
  | wait a next, m, lines => (a m).bind fun x => (next x).plan m lines
  | change f next, m, lines => next.plan (f m) lines
  | write line next, m, lines => next.plan m (lines ++ [line])

/-- The activity that results in what an instruction makes of the machine. -/
def Machine.plan (crew : Crew n) (every : Nat) (m : Machine) (i : Instruction) :
    Activity n Effect :=
  (i.routine crew every).plan m []

/-- How a step ends, given what came of the plan of its instruction. -/
def Machine.conclude (m : Machine) : Outcome σ n Effect → StepResult × World σ n × Machine
  | .ended w (.ok effect) =>
    let m := effect.machine.settle
    let lines := effect.lines.length
    (if m.running then .goesOn lines else .done lines, w.log effect.lines, m)
  | .ended w (.error f) => (.failed f, w, m)
  | .cancelled w => (.cancelled, w, m)
  | .expired w => (.expired, w, m)
  | .never w => (.never, w, m)
  | .outOfFuel w => (.outOfFuel, w, m)

namespace Routine

theorem plan_get {f : Machine → α} {x : α} {next : α → Routine n Unit} (m : Machine)
    (hx : f m = x) (lines : List String) :
    ((get f).bind next).plan m lines = (next x).plan m lines := by
  subst hx
  rfl

theorem plan_check (e : Except Fault α) (next : α → Routine n Unit) (m : Machine)
    (lines : List String) :
    ((check e).bind next).plan m lines = (lift e).bind fun x => (next x).plan m lines := by
  cases e <;> rfl

theorem plan_writeAll (more : List String) (next : Unit → Routine n Unit) (m : Machine)
    (lines : List String) :
    ((writeAll more).bind next).plan m lines = (next ()).plan m (lines ++ more) := by
  induction more generalizing lines with
  | nil => rw [List.append_nil]; rfl
  | cons line rest ih =>
    rw [List.append_cons]
    exact ih (lines ++ [line])

variable [ClientModel σ] {crew : Crew n} {fuel : Nat} {m m₀ : Machine} {r : Routine n Unit}
  {lines : List String}

/-- A routine that commits has its result at once, and puts it in place bit by bit. -/
theorem Commits.exists_result (h : r.Commits m₀ m lines) : ∃ result, r.plan m lines = lift result ∧
    ∀ (crew : Crew n) (fuel : Nat) (alarm : Alarm) (w : World σ n),
      r.run crew fuel alarm lines.length (w.log lines) m = m₀.conclude (.ended w result) := by
  induction r generalizing m lines with
  | done x => exact ⟨.ok ⟨m, lines⟩, rfl, fun _ _ _ _ => rfl⟩
  | fail f =>
    obtain ⟨rfl, rfl⟩ := h
    exact ⟨.error f, rfl, fun _ _ _ _ => rfl⟩
  | look f next ih => exact ih (f m) h
  | wait a next => exact h.elim
  | change f next ih => exact ih h
  | write line next ih =>
    obtain ⟨result, hplan, hrun⟩ := ih h
    refine ⟨result, hplan, fun crew fuel alarm w => ?_⟩
    have hlog : w.log (lines ++ [line]) = (w.log lines).record (.line line) := List.foldl_append
    have hnext := hrun crew fuel alarm.wrote w
    rwa [List.length_append, hlog] at hnext

/-- An atomic routine is its plan, put in place at the end. -/
theorem Atomic.run_eq (h : r.Atomic m) (hfuel : fuel ≠ 0) (alarm : Alarm) (w : World σ n) :
    r.run crew fuel alarm 0 w m = m.conclude ((r.plan m []).run crew alarm fuel w) := by
  have hcommits : ∀ r : Routine n Unit, r.Commits m m [] → r.run crew fuel alarm 0 w m =
      m.conclude ((r.plan m []).run crew alarm fuel w) := by
    intro r hr
    obtain ⟨result, hplan, hrun⟩ := hr.exists_result (σ := σ)
    rw [hplan, run_lift hfuel]
    exact hrun crew fuel alarm w
  induction r with
  | look f next ih => exact ih (f m) h
  | wait a next =>
    choose result hplan hrun using fun x => (h x).exists_result (σ := σ)
    have hinstant : (wait a next).plan m [] = (a m).bind fun x => lift (result x) :=
      congrArg (a m).bind (funext hplan)
    rw [hinstant, run_bind_lift, run]
    cases (a m).run crew alarm fuel w with
    | ended u answer =>
      cases answer with
      | ok x => exact hrun x crew fuel alarm u
      | error f => rfl
    | cancelled | expired | never | outOfFuel => rfl
  | done | fail | change | write => exact hcommits _ h

end Routine

/-! ### Steps -/

namespace Machine

variable [ClientModel σ] {crew : Crew n} {every : Nat} {alarm : Alarm} {fuel : Nat} {w : World σ n}
  {m : Machine}

theorem step_of_not_running (h : m.running = false) :
    m.step crew every alarm fuel w = (.done 0, w, m) := by
  simp [step, h]

theorem step_of_end (hrunning : m.running = true) (hi : m.instruction? = none) :
    m.step crew every alarm fuel w = (.done 0, w, m.stop) := by
  simp [step, hrunning, hi]

/-- A step carries out the plan of its instruction, and puts what comes of it in place
at the end. -/
theorem step_of_instruction {i : Instruction} (hrunning : m.running = true)
    (hi : m.instruction? = some i) :
    m.step crew every alarm fuel w = m.conclude ((m.plan crew every i).run crew alarm fuel w) := by
  simp only [step, hrunning, hi, if_true]
  split
  · rename_i hfuel
    subst hfuel
    rfl
  · rename_i hfuel
    exact (i.routine_atomic crew m every).run_eq hfuel alarm w

/-! ### The plans of instructions -/

variable (crew every m)

/-- What comes of a jump to another place. -/
def leap (m : Machine) (offset : Int64) : Except Fault Effect :=
  (m.target offset).map fun place => ⟨m.goTo place, []⟩

theorem plan_jumpBy (offset : Int64) :
    (Instruction.jumpBy offset : Routine n Unit).plan m [] = lift (m.leap offset) := by
  refine (Routine.plan_check (m.target offset) _ m []).trans ?_
  rw [leap]
  cases m.target offset <;> rfl

theorem plan_logWindow (who : Selector) (path : List String) :
    m.plan crew every (.logWindow who path) =
      (windowLines crew path (who.pick n)).bind fun lines => .done ⟨m.next, lines⟩ :=
  congrArg (windowLines crew path (who.pick n)).bind
    (funext fun lines => Routine.plan_writeAll lines _ m [])

theorem plan_jump (offset : Int64) : m.plan crew every (.jump offset) =
    match m.backEdge? with
    | some g => (g.test.evalCondition crew m.vars).bind fun leaves =>
      lift (if leaves then .ok ⟨m.leave.goTo g.exit, []⟩ else m.leap offset)
    | none => lift (m.leap offset) := by
  cases hback : m.backEdge? with
  | some g =>
    refine (Routine.plan_get m hback []).trans ?_
    refine congrArg (g.test.evalCondition crew m.vars).bind (funext fun leaves => ?_)
    cases leaves with
    | true => rfl
    | false => exact m.plan_jumpBy offset
  | none => exact (Routine.plan_get m hback []).trans (m.plan_jumpBy offset)

theorem plan_jumpIf (test : Expr) (offset : Int64) : m.plan crew every (.jumpIf test offset) =
    (test.evalCondition crew m.vars).bind fun holds =>
      lift (if holds then m.leap offset else .ok ⟨m.next, []⟩) := by
  refine congrArg (test.evalCondition crew m.vars).bind (funext fun holds => ?_)
  cases holds with
  | true => exact m.plan_jumpBy offset
  | false => rfl

theorem plan_jumpIfNot (test : Expr) (offset : Int64) : m.plan crew every (.jumpIfNot test offset) =
    (test.evalCondition crew m.vars).bind fun holds =>
      lift (if holds then .ok ⟨m.next, []⟩ else m.leap offset) := by
  refine congrArg (test.evalCondition crew m.vars).bind (funext fun holds => ?_)
  cases holds with
  | true => rfl
  | false => exact m.plan_jumpBy offset

theorem plan_enterUntil (test : Expr) (offset : Int64) :
    m.plan crew every (.enterUntil test offset) =
      lift ((m.target offset).map fun exit => ⟨(m.enter ⟨test, exit⟩).next, []⟩) := by
  refine (Routine.plan_check (m.target offset) _ m []).trans ?_
  cases m.target offset <;> rfl

theorem plan_call (name : String) : m.plan crew every (.call name) =
    lift ((m.label name).map fun place => ⟨m.push.goTo place, []⟩) := by
  refine (Routine.plan_check (m.label name) _ m []).trans ?_
  cases m.label name <;> rfl

theorem plan_ret : m.plan crew every .ret =
    lift (match m.calls.head? with
      | some place => .ok ⟨m.pop.goTo place, []⟩
      | none => .error .noCall) := by
  cases hnewest : m.calls.head? <;> exact (Routine.plan_get m hnewest []).trans rfl

theorem plan_decrement (name : String) : m.plan crew every (.decrement name) =
    lift ((m.lessOne name).map fun v => ⟨(m.assign name v).next, []⟩) := by
  refine (Routine.plan_check (m.lessOne name) _ m []).trans ?_
  cases m.lessOne name <;> rfl

variable {m}

theorem backEdge?_eq_some {g : UntilGuard} :
    m.backEdge? = some g ↔ m.guards = g :: m.guards.tail ∧ m.closes g = true := by
  cases hguards : m.guards with
  | nil => simp [backEdge?, hguards]
  | cons first outer =>
    simp only [backEdge?, hguards, List.head?_cons, Option.filter_eq_some_iff, Option.some_inj,
      List.cons.injEq, List.tail_cons, and_true]

end Machine

end BotScript
