/-!
# JSON values

The data format scripts and programs are stored in. Whole numbers that fit 64 bits are kept apart
from all other numbers, because a count or an offset must be written as a whole number. Objects keep
their fields in the order of the text, repeated keys included: whether a repetition matters is
decided where a field is read.

## Main definitions

* `Json`: a JSON value.
* `Json.lastWins`: the value in which, of the fields with one key, only the last is left.
-/

namespace BotScript

/-- A JSON value. `int` holds the whole numbers from `-2 ^ 63` to `2 ^ 64 - 1` that are written
without point and exponent; every other number is a `real`. -/
inductive Json where
  | null
  | bool (value : Bool)
  | int (value : Int)
  | real (value : Float)
  | str (value : String)
  | arr (items : List Json)
  | obj (fields : List (String × Json))
  deriving Inhabited

namespace Json

/-- Whether a whole number is kept as one. -/
def fitsInt (n : Int) : Bool := Int64.minValue.toInt ≤ n && n < UInt64.size

/-- Drop every field that a later one with the same key replaces. -/
def dropReplaced {α : Type} : List (String × α) → List (String × α)
  | [] => []
  | (key, value) :: rest =>
    if rest.any (·.1 == key) then dropReplaced rest else (key, value) :: dropReplaced rest

mutual

/-- The value in which, of the fields with one key, only the last is left, at every level. -/
def lastWins : Json → Json
  | .arr items => .arr (lastWinsItems items)
  | .obj fields => .obj (dropReplaced (lastWinsFields fields))
  | j => j

/-- `lastWins` on the items of an array. -/
def lastWinsItems : List Json → List Json
  | [] => []
  | j :: rest => lastWins j :: lastWinsItems rest

/-- `lastWins` on the values of some fields. -/
def lastWinsFields : List (String × Json) → List (String × Json)
  | [] => []
  | (key, j) :: rest => (key, lastWins j) :: lastWinsFields rest

end

mutual

/-- How many arrays and objects stand inside each other at most. -/
def depth : Json → Nat
  | .arr items => depthItems items + 1
  | .obj fields => depthFields fields + 1
  | _ => 0

/-- The greatest depth of some items. -/
def depthItems : List Json → Nat
  | [] => 0
  | j :: rest => max (depth j) (depthItems rest)

/-- The greatest depth of the values of some fields. -/
def depthFields : List (String × Json) → Nat
  | [] => 0
  | (_, j) :: rest => max (depth j) (depthFields rest)

end

end Json

end BotScript
