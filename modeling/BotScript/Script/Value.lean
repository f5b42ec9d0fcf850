import BotScript.Json.Record
import BotScript.Number.Layout

/-!
# Values

What an expression stands for when a script runs.

## Main definitions

* `Position`: a point in the world.
* `Value`: a number, a string, a key, a position or a truth value.
* `Value.truth?`: a value as a condition.
-/

namespace BotScript

/-- A point in the world. -/
structure Position where
  x : Float
  y : Float
  z : Float

namespace Position

/-- The text of a position. -/
def render (p : Position) : String :=
  "(" ++ Number.text p.x ++ ", " ++ Number.text p.y ++ ", " ++ Number.text p.z ++ ")"

/-- The opposite point. -/
def neg (p : Position) : Position := ⟨-p.x, -p.y, -p.z⟩

/-- The stored form of a position. -/
def toJson (p : Position) : Json := .obj [("x", .real p.x), ("y", .real p.y), ("z", .real p.z)]

open Json Json.Record in
/-- Read a position. -/
def ofJson? : Json → Option Position :=
  record do
    let x ← required "x" number?
    let y ← required "y" number?
    let z ← required "z" number?
    return ⟨x, y, z⟩

end Position

/-- The types of values. -/
inductive ValueType where
  | number
  | string
  | key
  | position
  | bool
  deriving DecidableEq, Repr

/-- The name of a type, as messages use it. -/
def ValueType.name : ValueType → String
  | .number => "number"
  | .string => "string"
  | .key => "key"
  | .position => "xyz"
  | .bool => "bool"

/-- What an expression stands for. -/
inductive Value where
  | number (x : Float)
  | string (s : String)
  | key (k : String)
  | position (p : Position)
  | bool (b : Bool)

namespace Value

/-- The type of a value. -/
def type : Value → ValueType
  | number _ => .number
  | string _ => .string
  | key _ => .key
  | position _ => .position
  | bool _ => .bool

/-- A value as a condition: a truth value itself, and a number if it is not zero. -/
def truth? : Value → Option Bool
  | bool b => some b
  | number x => some (x != 0)
  | _ => none

/-- A value as a number. -/
def number? : Value → Option Float
  | number x => some x
  | _ => none

/-- The text of a value. -/
def render : Value → String
  | number x => Number.text x
  | string s => s
  | key k => k
  | position p => p.render
  | bool b => if b then "true" else "false"

/-- The stored form of a value: its type and its content. -/
def toJson : Value → Json
  | number x => pair "Number" (.real x)
  | string s => pair "String" (.str s)
  | key k => pair "Key" (.str k)
  | position p => pair "Xyz" p.toJson
  | bool b => pair "Bool" (.bool b)
where
  /-- A type and a content. -/
  pair (name : String) (content : Json) : Json := .obj [("t", .str name), ("v", content)]

/-- Read a value. -/
def ofJson? (j : Json) : Option Value := do
  match ← Json.pair? "t" "v" j with
  | ("Number", some c) => return number (← Json.number? c)
  | ("String", some c) => return string (← Json.string? c)
  | ("Key", some c) => return key (← Json.string? c)
  | ("Xyz", some c) => return position (← Position.ofJson? c)
  | ("Bool", some c) => return bool (← Json.bool? c)
  | _ => none

end Value

end BotScript
