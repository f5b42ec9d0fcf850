import BotScript.Number.Parts

/-!
# Shortest decimals

The shortest decimal that reads back as a given double: of all decimals inside the interval of reals
that round to the double, those with the fewest digits, and of these the one nearest to it.

The interval is `m ± 1/2` in units of the last binary place, with a lower half of a quarter when `m`
is the least mantissa of its binade; its ends belong to it exactly when `m` is even. For one digit,
two digits and so on the two decimals around the double are tested in exact integer arithmetic. A
grid with a point in the interval has one of these two in it, so the first hit is shortest.

## Main definitions

* `Decimal`: digits times a power of ten.
* `shortest`: the shortest decimal of a mantissa and a binary exponent.
-/

namespace BotScript.Number

/-- `digits * 10 ^ exponent`. -/
structure Decimal where
  digits : Nat
  exponent : Int
  deriving DecidableEq, Repr

/-- How many decimal digits a number is written with. -/
def digitCount (n : Nat) : Nat := (Nat.toDigits 10 n).length

/-- `num / den` scaled by `10 ^ e`, as a numerator and a denominator. -/
def scaleByTen (num den : Nat) (e : Int) : Nat × Nat :=
  if e < 0 then (num, den * tenTo e.natAbs) else (num * tenTo e.natAbs, den)

/-- The decimal exponent of the leading digit of `num / den`, for a positive numerator. -/
def leadingExponent (num den : Nat) : Int :=
  let guess : Int := Int.ofNat (digitCount num) - Int.ofNat (digitCount den)
  let (n, d) := scaleByTen num den (-guess)
  if d ≤ n then guess else guess - 1

/-- Drop zeros at the end of the digits; at most `fuel` of them. -/
def Decimal.trim : Nat → Decimal → Decimal
  | 0, d => d
  | fuel + 1, d =>
    if d.digits ≠ 0 ∧ d.digits % 10 = 0 then trim fuel ⟨d.digits / 10, d.exponent + 1⟩ else d

/-- The interval of reals that round to `m * 2 ^ e`, in quarters of the last binary place, with
whether its ends belong to it. -/
structure Interval where
  low : Nat
  value : Nat
  high : Nat
  closed : Bool

/-- The interval around a mantissa: the gap below the least mantissa of a binade is half as wide. -/
def Interval.around (m : Nat) (e : Int) : Interval :=
  { low := if m = twoTo 52 ∧ -1074 < e then 4 * m - 1 else 4 * m - 2
    value := 4 * m
    high := 4 * m + 2
    closed := m % 2 = 0 }

/-- Whether the decimal `point * 10 ^ g` lies in the interval, whose unit is `num / den`. -/
def Interval.contains (i : Interval) (num den : Nat) (point : Nat) (g : Int) : Bool :=
  let (n, d) := scaleByTen point 1 g
  let p := n * den
  let low := i.low * num * d
  let high := i.high * num * d
  if i.closed then low ≤ p && p ≤ high else low < p && p < high

/-- The shortest decimal with at least `k` digits, trying at most `fuel` further lengths. -/
def shortestFrom (tie : Tie) (i : Interval) (num den : Nat) (lead : Int) : Nat → Nat → Decimal
  | 0, k =>
    let g := lead - k
    let (n, d) := scaleByTen (i.value * num) den (-g)
    ⟨n / d, g⟩
  | fuel + 1, k =>
    let g := lead - k
    let (n, d) := scaleByTen (i.value * num) den (-g)
    let below := n / d
    match i.contains num den below g, i.contains num den (below + 1) g with
    | true, true => ⟨roundQuotient tie n d, g⟩
    | true, false => ⟨below, g⟩
    | false, true => ⟨below + 1, g⟩
    | false, false => shortestFrom tie i num den lead fuel (k + 1)

/-- The shortest decimal that reads back as `m * 2 ^ e`, for a mantissa `m` of a double. Seventeen
digits always suffice. -/
def shortest (tie : Tie) (m : Nat) (e : Int) : Decimal :=
  if m = 0 then ⟨0, 0⟩
  else
    let (num, den) := binaryFraction 1 (e - 2)
    let i := Interval.around m e
    Decimal.trim 20 (shortestFrom tie i num den (leadingExponent (i.value * num) den) 17 0)

end BotScript.Number
