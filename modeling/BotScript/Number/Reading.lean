import BotScript.Number.Digits
import BotScript.Number.Shortest

/-!
# Numbers in settings

How the numbers of settings are read, from files and from the environment. A decimal is read as the
nearest double.

## Main definitions

* `nearest`: the double nearest to a decimal.
* `readInteger?`, `readWord?`: whole numbers of 64 bits.
* `readReal?`: a decimal, an infinity or a text that is not a number.
-/

namespace BotScript.Number

/-- The double nearest to `m * 10 ^ e`, negated if `negative`. Numbers far beyond the range of
doubles are infinite or zero. -/
def nearest (negative : Bool) (m : Nat) (e : Int) : Float :=
  let magnitude := Int.ofNat (digitCount m) + e
  let x : Float :=
    if m = 0 ∨ magnitude < -400 then 0
    else if 400 < magnitude then 1.0 / 0.0
    else Float.ofScientific m (e < 0) e.natAbs
  if negative then -x else x

/-- Whether a whole number has 64 bits with its sign. -/
def isInteger (n : Int) : Bool := Int64.minValue.toInt ≤ n && n ≤ Int64.maxValue.toInt

/-- All characters of a text as digits. -/
def allDigits? (cs : List Char) : Option Nat :=
  match scanDigits cs with
  | some (ds, []) => some (digitsValue ds)
  | _ => none

/-- A whole number of 64 bits with a sign. -/
def readInteger? (s : String) : Option Int := do
  let (negative, cs) := scanSign s.toList
  let n : Int ← (allDigits? cs).map Int.ofNat
  let n := if negative then -n else n
  if isInteger n then some n else none

/-- A whole number of 64 bits without a sign; a plus is allowed. -/
def readWord? (s : String) : Option UInt64 := do
  let cs := match s.toList with
    | '+' :: rest => rest
    | cs => cs
  let n ← allDigits? cs
  if n < UInt64.size then some (UInt64.ofNat n) else none

/-- The digits before and after the point, of which there is at least one, and the rest. -/
def scanFraction (cs : List Char) : Option (List Char × List Char × List Char) :=
  let (whole, cs) := cs.span Char.isDigit
  let (fraction, cs) := match cs with
    | '.' :: rest => rest.span Char.isDigit
    | _ => ([], cs)
  if whole.isEmpty ∧ fraction.isEmpty then none else some (whole, fraction, cs)

/-- A decimal with an optional point and exponent, an infinity, or a text that is not a number. -/
def readReal? (s : String) : Option Float :=
  let (negative, cs) := scanSign s.toList
  match String.ofList (cs.map Char.toLower) with
  | "inf" | "infinity" => some (if negative then -1.0 / 0.0 else 1.0 / 0.0)
  | "nan" => some (0.0 / 0.0)
  | _ => do
    let (whole, fraction, cs) ← scanFraction cs
    let (exponent, cs) ← match cs with
      | 'e' :: rest | 'E' :: rest => scanExponent rest
      | cs => some (0, cs)
    if cs.isEmpty then
      some (nearest negative (digitsValue (whole ++ fraction)) (exponent - fraction.length))
    else none

end BotScript.Number
