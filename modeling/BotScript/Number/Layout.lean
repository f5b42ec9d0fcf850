import BotScript.Number.Shortest

/-!
# How numbers are written

A double is written with its shortest digits. A `Layout` holds what a format decides beyond that:
when an exponent is used, whether a whole number keeps a point, which way ties go, and the words for
the values that are no numbers.

## Main definitions

* `Layout`: the decisions of a format.
* `Layout.write`: the text of a double.
* `plain`: the layout of log lines, listings and messages.
-/

namespace BotScript.Number

/-- The decisions of a number format. -/
structure Layout where
  /-- The exponents of the leading digit that are written without an exponent; `none`:
  all of them. -/
  positional : Option (Int × Int)
  /-- Whether a whole number ends in `.0`. -/
  keepPoint : Bool
  /-- Which of two equally near shortest decimals is taken. -/
  tie : Tie
  notANumber : String
  infinite : Bool → String

/-- `n` zeros. -/
def zeros (n : Nat) : String := String.ofList (List.replicate n '0')

/-- The digits of a decimal with the point where its exponent puts it. -/
def Decimal.positional (keepPoint : Bool) (d : Decimal) : String :=
  let text := toString d.digits
  let whole := if keepPoint then ".0" else ""
  if 0 ≤ d.exponent then
    (if d.digits = 0 then text else text ++ zeros d.exponent.natAbs) ++ whole
  else
    let places := d.exponent.natAbs
    if places < text.length then
      String.ofList (text.toList.take (text.length - places)) ++ "." ++
        String.ofList (text.toList.drop (text.length - places))
    else "0." ++ zeros (places - text.length) ++ text

/-- The digits of a decimal with one digit before the point, and the exponent with its sign. -/
def Decimal.scientific (d : Decimal) : String :=
  let text := (toString d.digits).toList
  let lead := d.exponent + Int.ofNat text.length - 1
  let mantissa := match text with
    | c :: [] => String.singleton c
    | c :: rest => String.singleton c ++ "." ++ String.ofList rest
    | [] => ""
  mantissa ++ "e" ++ (if lead < 0 then "-" else "+") ++ toString lead.natAbs

/-- The text of a double. -/
def Layout.write (l : Layout) (x : Float) : String :=
  match Parts.ofFloat x with
  | .notANumber => l.notANumber
  | .infinite negative => l.infinite negative
  | .finite negative m e =>
    let d := shortest l.tie m e
    let lead := d.exponent + Int.ofNat (digitCount d.digits) - 1
    let inRange := match l.positional with
      | none => true
      | some (low, high) => m = 0 || low ≤ lead && lead ≤ high
    (if negative then "-" else "") ++
      if inRange then d.positional l.keepPoint else d.scientific

/-- The layout of log lines, listings and messages: never an exponent, no point on whole numbers. -/
def plain : Layout where
  positional := none
  keepPoint := false
  tie := .up
  notANumber := "NaN"
  infinite negative := if negative then "-inf" else "inf"

/-- The plain text of a double. -/
def text (x : Float) : String := plain.write x

end BotScript.Number
