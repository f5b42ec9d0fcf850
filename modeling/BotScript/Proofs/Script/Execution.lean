import BotScript.Machine.Run
import BotScript.Script.Statement

/-!
# Executing a script as it is written

What a script does, told from its statements alone: a list runs its statements in order, a branch
asks its test once and runs one side, loops repeat their bodies, and a call runs the body of the
nearest block of its name. There are no places, no jumps and no machine. An execution stops when it
has run out of fuel, so every execution is finite; what is said of a script holds for all amounts of
fuel.

The nearest block is meant in the order of the text, in which the negative side of a branch comes
before the positive one. A block sees the blocks before it and itself, wherever it is called from.

## Main definitions

* `Upshot`: how an execution ends.
* `Exec`: a part of an execution, with the world and the variables.
* `Definitions`: the blocks that are known at a point of the text.
* `Statement.exec`: the execution of a statement.
* `Script.execute`: the execution of a script.
-/

namespace BotScript

/-- How an execution ends. -/
inductive Upshot where
  | finished
  | killed
  | failed (f : Fault)
  /-- It waits for something that never comes. -/
  | never
  /-- The time for it was over. -/
  | expired
  /-- It has not come to its end so far. -/
  | outOfFuel
  deriving DecidableEq

/-- Where a part of an execution leads: it goes on with a result, or the whole execution ends. -/
inductive Course (σ : Type) (n : Nat) (α : Type) where
  | goesOn (result : α) (w : World σ n) (vars : Variables)
  | ends (e : Upshot) (w : World σ n) (vars : Variables)

/-- A part of an execution. -/
def Exec (σ : Type) (n : Nat) (α : Type) := World σ n → Variables → Course σ n α

namespace Exec

variable {σ : Type} {n : Nat} {α β : Type}

/-- One part of an execution after the other. -/
def bind (x : Exec σ n α) (f : α → Exec σ n β) : Exec σ n β := fun w vars =>
  match x w vars with
  | .goesOn a w vars => f a w vars
  | .ends e w vars => .ends e w vars

instance : Monad (Exec σ n) where
  pure a := fun w vars => .goesOn a w vars
  bind := bind

@[simp] theorem bind_pure (x : Exec σ n α) : x >>= pure = x := by
  funext w vars
  change Exec.bind x _ w vars = x w vars
  unfold Exec.bind
  cases x w vars <;> rfl

/-- The whole execution ends. -/
def stop (e : Upshot) : Exec σ n α := fun w vars => .ends e w vars

/-- Write some lines. -/
def log (lines : List String) : Exec σ n Unit := fun w vars => .goesOn () (w.log lines) vars

/-- Give a variable a value. -/
def store (name : String) (v : Value) :
    Exec σ n Unit := fun w vars => .goesOn () w (vars.set name v)

/-- Do something with the clients that depends on the variables. -/
def perform [ClientModel σ] (crew : Crew n) (expire : Option Nat) (fuel : Nat)
    (a : Variables → Activity n α) : Exec σ n α := fun w vars =>
  match (a vars).run crew ⟨none, expire⟩ fuel w with
  | .ended w (.ok x) => .goesOn x w vars
  | .ended w (.error f) => .ends (.failed f) w vars
  | .never w => .ends .never w vars
  | .expired w | .cancelled w => .ends .expired w vars
  | .outOfFuel w => .ends .outOfFuel w vars

/-- Repeat a round as long as it tells to, up to a number of times. -/
def repeatWhile (round : Exec σ n Bool) : Nat → Exec σ n Unit
  | 0 => stop .outOfFuel
  | rounds + 1 => do if ← round then repeatWhile round rounds

end Exec

open Exec Activity

/-! ### Blocks -/

/-- The blocks that are known at a point of the text, the nearest one first. -/
abbrev Definitions := List (String × Script)

/-- The nearest block of a name, with the blocks that it knows. -/
def Definitions.find? (name : String) : Definitions → Option (Script × Definitions)
  | [] => none
  | (other, body) :: older =>
    if other == name then some (body, (other, body) :: older) else find? name older

mutual

/-- The blocks that are known behind a statement. -/
def Statement.define (defs : Definitions) : Statement → Definitions
  | .list body | .whileLoop _ body | .untilLoop _ body | .loop body => defineAll defs body
  | .block name body => defineAll ((name, body) :: defs) body
  | .branch _ yes no => defineAll (defineAll defs no) yes
  | .command _ | .call _ | .assign .. | .decrement _ => defs

/-- The blocks that are known behind some statements. -/
def Statement.defineAll (defs : Definitions) : List Statement → Definitions
  | [] => defs
  | s :: rest => defineAll (s.define defs) rest

end

/-! ### Statements -/

section Statements

variable {σ : Type} {n : Nat} [ClientModel σ] (crew : Crew n) (every : Nat) (expire : Option Nat)
  (fuel : Nat)

/-- The execution of a command. A wait with completion is the wait without it, and then
the wait with it. -/
def Command.exec (c : Command) : Exec σ n Unit :=
  match c.kind with
  | .kill => stop .killed
  | .sleep duration => perform crew expire fuel (duration.rest crew)
  | .log (.literal tokens) => log [" ".intercalate (tokens.map LogToken.text)]
  | .log (.window path) => do
    log (← perform crew expire fuel fun _ => windowLines crew path (c.who.pick n))
  | .act (.waitFor ⟨kind, true⟩) => do
    act (.waitFor ⟨kind, false⟩)
    act (.waitFor ⟨kind, true⟩)
  | .act a => act a
  | .loadPlaystyle text =>
    perform crew expire fuel fun _ => allDo (c.who.pick n) (.loadPlaystyle text)
  | .expr p => do let _ ← perform crew expire fuel fun _ => p.eval crew c.who
where
  /-- The selected clients carry out an action. -/
  act (a : Action) : Exec σ n Unit :=
    perform crew expire fuel fun vars => a.perform crew every vars (c.who.pick n)

/-- The truth of an expression as a condition. -/
def Expr.holds (test : Expr) : Exec σ n Bool :=
  perform crew expire fuel fun vars => test.evalCondition crew vars

/-- A number less one. -/
def Variables.decremented (vars : Variables) (name : String) : Except Fault Value :=
  match vars.get? name with
  | some (.number x) => .ok (.number (x - 1))
  | some v => .error (.typeMismatch "dec_var" "number" v.type)
  | none => .error (.unknownVariable name)

variable (callee : Definitions → Script → Exec σ n Unit)

mutual

/-- The execution of a statement; `callee` is that of the body of a block. -/
def Statement.exec (defs : Definitions) : Statement → Exec σ n Unit
  | .list body => execAll defs body
  | .command c => c.exec crew every expire fuel
  | .block .. => pure ()
  | .branch test yes no => do
    if ← test.holds crew expire fuel then execAll (defineAll defs no) yes else execAll defs no
  | .whileLoop test body => repeatWhile (do
    if ← test.holds crew expire fuel then
      execAll defs body
      return true
    else return false) fuel
  | .untilLoop test body => repeatWhile (do
    execAll defs body
    return !(← test.holds crew expire fuel)) fuel
  | .loop body => repeatWhile (do
    execAll defs body
    return true) fuel
  | .call name =>
    match defs.find? name with
    | some (body, known) => callee known body
    | none => stop (.failed (.labelNotFound name))
  | .assign name value => do
    store name (← perform crew expire fuel fun vars => value.eval crew vars)
  | .decrement name => do
    store name (← perform crew expire fuel fun vars => lift (vars.decremented name))

/-- The execution of some statements in order. -/
def Statement.execAll (defs : Definitions) : List Statement → Exec σ n Unit
  | [] => pure ()
  | s :: rest => do
    s.exec defs
    execAll (s.define defs) rest

end

/-- The execution of a script where some blocks are known. Each call takes one from the fuel. -/
def Script.exec (crew : Crew n) (every : Nat) (expire : Option Nat) :
    Nat → Definitions → Script → Exec σ n Unit
  | 0, _, _ => stop .outOfFuel
  | fuel + 1, defs, s =>
    Statement.execAll crew every expire (fuel + 1) (exec crew every expire fuel) defs s

/-- The execution of a script from the beginning: how it ends, and the world and the
variables then. -/
def Script.execute (s : Script) (w : World σ n) : Upshot × World σ n × Variables :=
  match s.exec crew every expire fuel [] w [] with
  | .goesOn () w vars => (.finished, w, vars)
  | .ends e w vars => (e, w, vars)

end Statements

end BotScript
