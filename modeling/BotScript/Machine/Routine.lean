import BotScript.Activity.Run
import BotScript.Machine.Performance

/-!
# Routines

A routine is what an instruction does, in the order in which it does it: it looks at the machine,
waits for activities, changes the machine and writes lines, and it may fail anywhere. The machine is
passed through, so that whatever comes later finds it as it has been left; and a routine that fails
or is stopped leaves it, and the log, with all that was done before.

An activity looks at the machine as well, but cannot change it, nor write lines.

## Main definitions

* `Routine`: things done one after the other.
* `Routine.run`: carry out a routine.
* `Instruction.routine`: what an instruction does.
-/

namespace BotScript

/-- Things done one after the other, with a result of some type. -/
inductive Routine (n : Nat) (α : Type) : Type 1 where
  | done (result : α)
  | fail (f : Fault)
  /-- Look at the machine. -/
  | look {β : Type} (f : Machine → β) (next : β → Routine n α)
  /-- Wait for an activity. -/
  | wait {β : Type} (a : Machine → Activity n β) (next : β → Routine n α)
  /-- Change the machine. -/
  | change (f : Machine → Machine) (next : Routine n α)
  /-- Write a line. -/
  | write (line : String) (next : Routine n α)

namespace Routine

variable {n : Nat} {α β : Type}

/-- One routine after the other. -/
def bind : Routine n α → (α → Routine n β) → Routine n β
  | done a, f => f a
  | fail e, _ => fail e
  | look g next, f => look g fun x => (next x).bind f
  | wait a next, f => wait a fun x => (next x).bind f
  | change g next, f => change g (next.bind f)
  | write line next, f => write line (next.bind f)

instance : Monad (Routine n) where
  pure := done
  bind := bind

/-- Look at the machine. -/
def get (f : Machine → α) : Routine n α := look f done

/-- Wait for an activity that may depend on the machine. -/
def await (a : Machine → Activity n α) : Routine n α := wait a done

/-- Change the machine. -/
def modify (f : Machine → Machine) : Routine n Unit := change f (done ())

/-- Write some lines, one after the other. -/
def writeAll : List String → Routine n Unit
  | [] => done ()
  | line :: rest => write line (writeAll rest)

/-- Go on with a result, or fail. -/
def check : Except Fault α → Routine n α
  | .ok a => done a
  | .error f => fail f

end Routine

namespace Machine

/-- A machine that has come to the end of its program stops. -/
def settle (m : Machine) : Machine := if m.program.length ≤ m.ip then m.stop else m

/-- How a step ends. -/
inductive StepResult where
  /-- The instruction is done, having written some lines, and the machine is still running. -/
  | goesOn (lines : Nat)
  /-- The machine has stopped, or was not running. -/
  | done (lines : Nat)
  | failed (f : Fault)
  | cancelled
  | expired
  /-- The instruction waits for something that never comes. -/
  | never
  | outOfFuel

end Machine

/-- Carry out a routine that has written some lines so far. At its end the machine stops if there is
no instruction left. The alarm rings for each wait anew, but for the lines written before. -/
def Routine.run {σ : Type} {n : Nat} [ClientModel σ] (crew : Crew n) (fuel : Nat) :
    Alarm → Nat → World σ n → Machine → Routine n Unit → Machine.StepResult × World σ n × Machine
  | _, lines, w, m, done () =>
    (if m.settle.running then .goesOn lines else .done lines, w, m.settle)
  | _, _, w, m, fail f => (.failed f, w, m)
  | alarm, lines, w, m, look f next => (next (f m)).run crew fuel alarm lines w m
  | alarm, lines, w, m, wait a next =>
    match (a m).run crew alarm fuel w with
    | .ended w (.ok x) => (next x).run crew fuel alarm lines w m
    | .ended w (.error f) => (.failed f, w, m)
    | .cancelled w => (.cancelled, w, m)
    | .expired w => (.expired, w, m)
    | .never w => (.never, w, m)
    | .outOfFuel w => (.outOfFuel, w, m)
  | alarm, lines, w, m, change f next => next.run crew fuel alarm lines w (f m)
  | alarm, lines, w, m, write line next =>
    next.run crew fuel alarm.wrote (lines + 1) (w.record (.line line)) m

/-! ### Instructions -/

namespace Machine

/-- Whether the jump at the place of the machine is the one that ends the body of an
`until` loop. -/
def closes (m : Machine) (g : UntilGuard) : Bool := g.exit == m.ip + 1

/-- The innermost `until` loop, if the jump at the place of the machine ends its body. -/
def backEdge? (m : Machine) : Option UntilGuard := m.guards.head?.filter m.closes

/-- The place of the nearest label of a name above. -/
def label (m : Machine) (name : String) : Except Fault Nat :=
  match m.program.labelBefore? m.ip name with
  | some place => .ok place
  | none => .error (.labelNotFound name)

/-- The value of a variable, less one. -/
def lessOne (m : Machine) (name : String) : Except Fault Value :=
  match m.vars.get? name with
  | some (.number x) => .ok (.number (x - 1))
  | some v => .error (.typeMismatch "dec_var" "number" v.type)
  | none => .error (.unknownVariable name)

/-- Enter an `until` loop. -/
def enter (m : Machine) (g : UntilGuard) : Machine := { m with guards := g :: m.guards }

/-- Leave the innermost `until` loop. -/
def leave (m : Machine) : Machine := { m with guards := m.guards.tail }

/-- Remember to return behind the place of the machine. -/
def push (m : Machine) : Machine := { m with calls := (m.ip + 1) :: m.calls }

/-- Forget the newest place to return to, if there is one. -/
def pop (m : Machine) : Machine := { m with calls := m.calls.tail }

/-- Give a variable a value. -/
def assign (m : Machine) (name : String) (v : Value) : Machine :=
  { m with vars := m.vars.set name v }

end Machine

/-- Wait for as many seconds as an expression says. -/
def Expr.rest {n : Nat} (crew : Crew n) (duration : Expr) (vars : Variables) : Activity n Unit := do
  let seconds ← duration.evalNumber crew vars "sleep"
  let d ← Activity.lift (secondsOperand "sleep" seconds)
  Activity.sleep d.ticks

namespace Instruction

open Routine

variable {n : Nat}

/-- A jump to another place. -/
def jumpBy (offset : Int64) : Routine n Unit := do
  let place ← check (← get (·.target offset))
  modify (·.goTo place)

/-- What an instruction does; `every` is how many milliseconds clients rest when they poll. -/
def routine (crew : Crew n) (every : Nat) : Instruction → Routine n Unit
  | .kill => modify Machine.kill
  | .sleep duration => do
    await fun m => duration.rest crew m.vars
    modify Machine.next
  | .logLiteral tokens => do
    writeAll [" ".intercalate (tokens.map LogToken.text)]
    modify Machine.next
  | .logWindow who path => do
    writeAll (← await fun _ => windowLines crew path (who.pick n))
    modify Machine.next
  | .jump offset => do
    -- At the end of the body of the innermost `until` loop, the loop is left if its
    -- condition holds.
    match ← get (·.backEdge?) with
    | some g =>
      if ← await fun m => g.test.evalCondition crew m.vars then
        modify Machine.leave
        modify (·.goTo g.exit)
      else jumpBy offset
    | none => jumpBy offset
  | .jumpIf test offset => do
    if ← await fun m => test.evalCondition crew m.vars then jumpBy offset
    else modify Machine.next
  | .jumpIfNot test offset => do
    if ← await fun m => test.evalCondition crew m.vars then modify Machine.next
    else jumpBy offset
  | .enterUntil test offset => do
    let exit ← check (← get (·.target offset))
    modify (·.enter ⟨test, exit⟩)
    modify Machine.next
  | .label _ | .nop => modify Machine.next
  | .call name => do
    let place ← check (← get (·.label name))
    modify Machine.push
    modify (·.goTo place)
  | .ret => do
    -- The newest call is taken off before it is known whether there is one.
    let newest ← get (·.calls.head?)
    modify Machine.pop
    match newest with
    | some place => modify (·.goTo place)
    | none => fail .noCall
  | .act who a => do
    await fun m => a.perform crew every m.vars (who.pick n)
    modify Machine.next
  | .loadPlaystyle who text => do
    await fun _ => allDo (who.pick n) (.loadPlaystyle text)
    modify Machine.next
  | .assign name e => do
    let v ← await fun m => e.eval crew m.vars
    modify (·.assign name v)
    modify Machine.next
  | .decrement name => do
    let v ← check (← get (·.lessOne name))
    modify (·.assign name v)
    modify Machine.next

end Instruction

end BotScript
