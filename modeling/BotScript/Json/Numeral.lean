import BotScript.Json.Basic
import BotScript.Number.Digits

/-!
# Numbers in JSON text

A numeral without point and exponent that fits 64 bits is a whole number. Every other numeral is
read in double precision: its digits, as many as fit 64 bits, as a double, which is then multiplied
or divided by a power of ten. A numeral too large for a double is refused; one too small is zero.

## Main definitions

* `Numeral`: the pieces of a numeral.
* `Numeral.scan`: the numeral at the beginning of a text.
* `Numeral.value?`: the number it stands for.
-/

namespace BotScript.Json

open Number

/-- The pieces of a numeral, digits in the order of the text. -/
structure Numeral where
  negative : Bool
  whole : List Char
  /-- The digits after the point, `none` without a point. -/
  fraction : Option (List Char)
  /-- The exponent, `none` if there is none. -/
  exponent : Option Int

/-- The numeral at the beginning of a text, and the rest. A whole part of several digits does not
begin with zero. -/
def Numeral.scan (cs : List Char) : Option (Numeral × List Char) := do
  let (negative, cs) := match cs with
    | '-' :: rest => (true, rest)
    | _ => (false, cs)
  let (whole, cs) ← scanDigits cs
  if whole.head? = some '0' ∧ whole.length ≠ 1 then none
  let (fraction, cs) ← match cs with
    | '.' :: rest => (scanDigits rest).map fun (ds, rest) => (some ds, rest)
    | _ => some (none, cs)
  let (exponent, cs) ← match cs with
    | 'e' :: rest | 'E' :: rest => (scanExponent rest).map fun (e, rest) => (some e, rest)
    | _ => some (none, cs)
  return (⟨negative, whole, fraction, exponent⟩, cs)

/-- Digits taken into a 64-bit number as long as they fit, and how many were left out. -/
def takeDigits (start : Nat) : List Char → Nat × Nat
  | [] => (start, 0)
  | c :: rest =>
    let next := 10 * start + digitValue c
    if next < UInt64.size then takeDigits next rest else (start, rest.length + 1)

/-- A power of ten with an exponent up to 308, as a double. -/
def powerOfTen (e : Nat) : Float := Float.ofScientific 1 false e

/-- `x * 10 ^ e` in double precision, `none` if it is too large. Exponents beyond the range of
doubles are taken in steps; three of them turn any such number into zero. -/
def scaled : Nat → Float → Int → Option Float
  | 0, _, _ => some 0
  | fuel + 1, x, e =>
    if e.natAbs ≤ 308 then
      if 0 ≤ e then
        let y := x * powerOfTen e.natAbs
        if y.isInf then none else some y
      else some (x / powerOfTen e.natAbs)
    else if x == 0 then some x
    else if 0 ≤ e then none
    else scaled fuel (x / powerOfTen 308) (e + 308)

/-- The number a numeral stands for, `none` if it is too large for a double. -/
def Numeral.value? (n : Numeral) : Option Json :=
  let whole := digitsValue n.whole
  match n.fraction, n.exponent with
  | none, none =>
    let signed : Int := if n.negative then -whole else whole
    if fitsInt signed && !(n.negative && whole == 0) then some (.int signed) else real
  | _, _ => real
where
  /-- The numeral as a double. -/
  real : Option Json :=
    let (taken, left) := takeDigits 0 n.whole
    let fraction := n.fraction.getD []
    let (taken, unread) := takeDigits taken fraction
    let places : Int := Int.ofNat (fraction.length - unread)
    let e := Int.ofNat left - places + n.exponent.getD 0
    (scaled 4 (Float.ofNat taken) e).map fun x => .real (if n.negative then -x else x)

end BotScript.Json
