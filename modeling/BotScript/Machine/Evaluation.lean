import BotScript.Activity.Basic
import BotScript.Client.World
import BotScript.Machine.Basic
import BotScript.Number.Duration

/-!
# Evaluating expressions

Most expressions depend on the variables alone. A predicate asks the selected clients one after the
other, up to the first that says no; it holds if nobody does.

## Main definitions

* `Expr.eval`: the value of an expression.
* `Expr.evalCondition`, `Expr.evalNumber`, `Expr.evalPosition`, `Expr.evalKey`: the value of an
  expression that has to be of some type.
* `secondsOperand`, `coordinate`: operands with a limited range.
-/

namespace BotScript

open Activity

variable {n : Nat}

/-- A question to one client with a yes or no answer. -/
inductive Probe where
  | ask (c : Call .truth)
  /-- The client is in this zone. -/
  | inZone (zone : String)

/-- Ask one client. -/
def Probe.of (p : Probe) (who : Fin n) : Activity n Bool :=
  match p with
  | .ask c => query who c
  | .inZone zone => do return (← query who .zone) == zone

/-- Whether the answer is yes for all of some clients; the first no is enough to know. -/
def Probe.ofAll (p : Probe) : List (Fin n) → Activity n Bool
  | [] => return true
  | who :: rest => do if ← p.of who then p.ofAll rest else return false

/-- The client of a number, counted from one. -/
def Crew.player (_ : Crew n) (num : Nat) : Except Fault (Fin n) :=
  if h : 0 < num ∧ num ≤ n then .ok ⟨num - 1, by omega⟩ else .error (.noClient num n)

/-- What follows from something that may be faulty. -/
def Activity.lift {α : Type} : Except Fault α → Activity n α
  | .ok a => .done a
  | .error f => .fail f

/-- The truth of a predicate. -/
def Predicate.eval (crew : Crew n) (who : Selector) : Predicate → Activity n Bool
  | .windowVisible path => (Probe.ask (.windowVisible path)).ofAll (who.pick n)
  | .inZone path => (Probe.inZone (Text.joinPath path)).ofAll (who.pick n)
  | .inBattle => (Probe.ask .inBattle).ofAll (who.pick n)
  | .inDialog => (Probe.ask .inDialog).ofAll (who.pick n)
  | .sameZone a b => do
    let a ← lift (crew.player a.toNat)
    let b ← lift (crew.player b.toNat)
    let zone ← query a .zone
    (Probe.inZone zone).of b

namespace Value

/-- The truth of a value as a condition. -/
def asCondition (v : Value) : Except Fault Bool :=
  match v.truth? with
  | some b => .ok b
  | none => .error (.typeMismatch "condition" "bool or number" v.type)

/-- A value that has to be a number. -/
def asNumber (context : String) : Value → Except Fault Float
  | .number x => .ok x
  | v => .error (.typeMismatch context "number" v.type)

/-- A value that has to be a position. -/
def asPosition (context : String) : Value → Except Fault Position
  | .position p => .ok p
  | v => .error (.typeMismatch context "xyz" v.type)

/-- A value that has to be a key; a string will do. -/
def asKey : Value → Except Fault String
  | .key k => .ok k
  | .string s => .ok s
  | v => .error (.typeMismatch "sendkey" "key" v.type)

/-- The opposite of a number or of a position. -/
def negate : Value → Except Fault Value
  | .number x => .ok (.number (-x))
  | .position p => .ok (.position p.neg)
  | v => .error (.typeMismatch "negation" "number or xyz" v.type)

end Value

namespace Expr

/-- The value of an expression. -/
def eval (crew : Crew n) (vars : Variables) : Expr → Activity n Value
  | .number x => return .number x
  | .string s => return .string s
  | .key k => return .key k
  | .position x y z => do
    let x ← lift ((← x.eval crew vars).asNumber "xyz")
    let y ← lift ((← y.eval crew vars).asNumber "xyz")
    let z ← lift ((← z.eval crew vars).asNumber "xyz")
    return .position ⟨x, y, z⟩
  | .unary .negate e => do lift (← e.eval crew vars).negate
  | .unary .not e => do return .bool !(← lift (← e.eval crew vars).asCondition)
  | .ask who p => do return .bool (← p.eval crew who)
  | .var name =>
    match vars.get? name with
    | some v => return v
    | none => fail (.unknownVariable name)

/-- The truth of an expression as a condition. -/
def evalCondition (crew : Crew n) (vars : Variables) (e : Expr) : Activity n Bool := do
  lift (← e.eval crew vars).asCondition

/-- The value of an expression that has to be a number. -/
def evalNumber (crew : Crew n) (vars : Variables) (context : String) (e : Expr) :
    Activity n Float := do
  lift ((← e.eval crew vars).asNumber context)

/-- The value of an expression that has to be a position. -/
def evalPosition (crew : Crew n) (vars : Variables) (context : String) (e : Expr) :
    Activity n Position := do
  lift ((← e.eval crew vars).asPosition context)

/-- The value of an expression that has to be a key. -/
def evalKey (crew : Crew n) (vars : Variables) (e : Expr) : Activity n String := do
  lift (← e.eval crew vars).asKey

end Expr

/-- A number of seconds as a length of time. -/
def secondsOperand (instruction : String) (seconds : Float) : Except Fault Duration :=
  match Duration.ofSeconds seconds with
  | .ok d => .ok d
  | .error _ =>
    .error (.invalidOperand instruction
      ("expected a non-negative duration, got " ++ Number.text seconds))

/-- A number as a coordinate of the screen: the nearest integer, a half going away from zero. -/
def coordinate (x : Float) : Except Fault Int32 :=
  match Number.roundToInt? x with
  | some i =>
    if Int32.minValue.toInt ≤ i ∧ i ≤ Int32.maxValue.toInt then .ok (Int32.ofInt i)
    else .error outOfRange
  | none => .error outOfRange
where
  /-- The fault of a number that is no coordinate. -/
  outOfRange : Fault := .invalidOperand "click"
    ("coordinate " ++ Number.text x ++ " is out of range")

end BotScript
