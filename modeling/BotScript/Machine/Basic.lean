import BotScript.Machine.Fault

/-!
# The machine

The state of a run: the program, where it is, the calls to return from, the `until` loops it is in,
and the variables. Clients are no part of it.

## Main definitions

* `Machine`: the state of a run.
* `Machine.load`, `Machine.reset`, `Machine.start`, `Machine.stop`, `Machine.kill`: the controls.
-/

namespace BotScript

/-- The variables of a script with their values. -/
abbrev Variables := List (String × Value)

namespace Variables

/-- The value of a variable. -/
def get? (vars : Variables) (name : String) : Option Value := List.lookup name vars

/-- Give a variable a value. -/
def set (vars : Variables) (name : String) (v : Value) : Variables :=
  (name, v) :: vars.filter fun entry => entry.1 != name

end Variables

/-- An `until` loop that is being run: its condition, and where it goes on behind the loop. -/
structure UntilGuard where
  test : Expr
  exit : Nat

/-- The state of a run. The newest call and the innermost loop come first. -/
structure Machine where
  program : Program
  /-- The place of the next instruction. -/
  ip : Nat
  /-- The places to return to. -/
  calls : List Nat
  guards : List UntilGuard
  vars : Variables
  running : Bool
  killed : Bool

namespace Machine

/-- A machine without a program. -/
def idle : Machine := ⟨.empty, 0, [], [], [], false, false⟩

/-- Forget the program and all that came of it. A killed machine stays killed. -/
def reset (m : Machine) : Machine := { idle with running := m.running, killed := m.killed }

/-- Take a new program, from its beginning. -/
def load (m : Machine) (p : Program) : Machine := { m.reset with program := p }

/-- Let the machine run. -/
def start (m : Machine) : Machine := { m with running := true }

/-- Stop the machine. -/
def stop (m : Machine) : Machine := { m with running := false }

/-- Stop the machine and mark it as killed. -/
def kill (m : Machine) : Machine := { m.stop with killed := true }

/-- The next instruction. -/
def instruction? (m : Machine) : Option Instruction := m.program.code[m.ip]?

/-- Go on with the instruction at a place. -/
def goTo (m : Machine) (place : Nat) : Machine := { m with ip := place }

/-- Go on with the following instruction. -/
def next (m : Machine) : Machine := m.goTo (m.ip + 1)

/-- Where a jump from here goes. -/
def target (m : Machine) (offset : Int64) : Except Fault Nat :=
  match m.program.jumpTarget? m.ip offset with
  | some place => .ok place
  | none => .error (.jumpOutOfRange m.ip offset m.program.length)

end Machine

end BotScript
