/-!
# The parts of a double

A finite double is a whole number times a power of two. Everything this library does with a number
beyond plain arithmetic (writing it, rounding it, turning it into a length of time) is decided on
these two integers, so that no step depends on a second rounding.

## Main definitions

* `Parts`: sign, mantissa and binary exponent of a finite double, or the reason why there are none.
* `Parts.ofFloat`: the parts of a double.
* `roundQuotient`: a quotient of natural numbers, rounded to the nearest one.
-/

namespace BotScript.Number

/-- A power of two. -/
def twoTo (k : Nat) : Nat := Nat.pow 2 k

/-- A power of ten. -/
def tenTo (k : Nat) : Nat := Nat.pow 10 k

/-- What a double stands for. A finite one is `mantissa * 2 ^ exponent`, negated if `negative`. -/
inductive Parts where
  | notANumber
  | infinite (negative : Bool)
  | finite (negative : Bool) (mantissa : Nat) (exponent : Int)
  deriving DecidableEq, Repr

/-- Split a double. The mantissa of a normal number carries its hidden bit. -/
def Parts.ofFloat (x : Float) : Parts :=
  let bits := x.toBits.toNat
  let negative := twoTo 63 ≤ bits
  let biased := bits / twoTo 52 % twoTo 11
  let fraction := bits % twoTo 52
  if biased = 2047 then
    if fraction = 0 then .infinite negative else .notANumber
  else if biased = 0 then .finite negative fraction (-1074)
  else .finite negative (twoTo 52 + fraction) (Int.ofNat biased - 1075)

/-- `m * 2 ^ e` as a numerator and a denominator. -/
def binaryFraction (m : Nat) (e : Int) : Nat × Nat :=
  if e < 0 then (m, twoTo e.natAbs) else (m * twoTo e.natAbs, 1)

/-- Which neighbour an exact half goes to. -/
inductive Tie where
  | up
  | toEven
  deriving DecidableEq, Repr

/-- The whole number nearest to `num / den`. -/
def roundQuotient (tie : Tie) (num den : Nat) : Nat :=
  let low := num / den
  match compare (2 * (num % den)) den with
  | .lt => low
  | .gt => low + 1
  | .eq => if tie = .toEven ∧ low % 2 = 0 then low else low + 1

/-- The integer nearest to a finite double, a half going away from zero. -/
def roundToInt? (x : Float) : Option Int :=
  match Parts.ofFloat x with
  | .finite negative m e =>
    let (num, den) := binaryFraction m e
    let n : Int := roundQuotient .up num den
    some (if negative then -n else n)
  | _ => none

end BotScript.Number
