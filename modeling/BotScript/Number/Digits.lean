/-!
# Digits

## Main definitions

* `digitsValue`: the number some digits stand for, in a base.
* `scanDigits`: the digits at the beginning of a text.
* `hexValue?`: the value of a hexadecimal digit.
-/

namespace BotScript.Number

/-- The value of a decimal digit. -/
def digitValue (c : Char) : Nat := c.toNat - '0'.toNat

/-- The number some decimal digits stand for. -/
def digitsValue (cs : List Char) : Nat := cs.foldl (fun n c => 10 * n + digitValue c) 0

/-- The decimal digits at the beginning of a text, at least one, and the rest. -/
def scanDigits (cs : List Char) : Option (List Char × List Char) :=
  match cs.span Char.isDigit with
  | ([], _) => none
  | (ds, rest) => some (ds, rest)

/-- The value of a hexadecimal digit. -/
def hexValue? (c : Char) : Option Nat :=
  if c.isDigit then some (c.toNat - '0'.toNat)
  else if 'a' ≤ c && c ≤ 'f' then some (c.toNat - 'a'.toNat + 10)
  else if 'A' ≤ c && c ≤ 'F' then some (c.toNat - 'A'.toNat + 10)
  else none

/-- A sign at the beginning of a text, if there is one, and the rest; `true` is a minus. -/
def scanSign : List Char → Bool × List Char
  | '-' :: rest => (true, rest)
  | '+' :: rest => (false, rest)
  | cs => (false, cs)

/-- The exponent after its mark: a sign, if any, and digits. -/
def scanExponent (cs : List Char) : Option (Int × List Char) :=
  let (negative, cs) := scanSign cs
  (scanDigits cs).map fun (ds, rest) =>
    let n : Int := digitsValue ds
    (if negative then -n else n, rest)

end BotScript.Number
