import BotScript.Number.Reading
import BotScript.Toml.Basic

/-!
# Words of a settings file

Values that are written as one word: truth values, numbers, dates and times.

## Main definitions

* `Toml.number?`: the value of a number.
* `Toml.moment?`: the text of a date, a time, or both.
* `Toml.word?`: the value of a word.
-/

namespace BotScript.Toml

open Number

/-! ### Numbers -/

/-- Digits without the single underscores between them. -/
def plainDigits? (isDigit : Char → Bool) : List Char → Option (List Char)
  | [] => none
  | [c] => if isDigit c then some [c] else none
  | c :: '_' :: rest => if isDigit c then (plainDigits? isDigit rest).map (c :: ·) else none
  | c :: rest => if isDigit c then (plainDigits? isDigit rest).map (c :: ·) else none

/-- A whole number, if it has 64 bits with its sign. -/
def integer? (negative : Bool) (n : Nat) : Option Toml :=
  let n : Int := if negative then -Int.ofNat n else n
  if isInteger n then some (.int n) else none

/-- A whole number in a base of two, eight or sixteen. -/
def based? (base : Nat) (cs : List Char) : Option Toml := do
  let isDigit (c : Char) : Bool := (hexValue? c).any (· < base)
  let ds ← plainDigits? isDigit cs
  integer? false (ds.foldl (fun n c => base * n + (hexValue? c).getD 0) 0)

/-- The whole part of a decimal, which does not begin with a zero that could be left out. -/
def wholePart? (cs : List Char) : Option (List Char) := do
  let ds ← plainDigits? Char.isDigit cs
  if ds.head? = some '0' ∧ ds.length ≠ 1 then none else some ds

/-- Whether a character may stand in the digits of a decimal. -/
def isDigitOrUnderscore (c : Char) : Bool := c.isDigit || c == '_'

/-- An exponent after its mark. -/
def exponent? (cs : List Char) : Option Int := do
  let (negative, cs) := scanSign cs
  let n := Int.ofNat (digitsValue (← plainDigits? Char.isDigit cs))
  return if negative then -n else n

/-- A decimal with a point or an exponent. One that is too large is refused. -/
def real? (negative : Bool) (whole fraction : List Char) (exponent : Int) : Option Toml :=
  let x := nearest negative (digitsValue (whole ++ fraction)) (exponent - fraction.length)
  if x == 1.0 / 0.0 then none else some (.real x)

/-- The value of a number. -/
def number? (cs : List Char) : Option Toml :=
  match cs with
  | '0' :: 'x' :: rest => based? 16 rest
  | '0' :: 'o' :: rest => based? 8 rest
  | '0' :: 'b' :: rest => based? 2 rest
  | _ =>
    let (negative, cs) := scanSign cs
    match String.ofList cs with
    | "inf" => some (.real (if negative then -1.0 / 0.0 else 1.0 / 0.0))
    | "nan" => some (.real (0.0 / 0.0))
    | _ => do
      let (whole, rest) := cs.span isDigitOrUnderscore
      let whole ← wholePart? whole
      match rest with
      | [] => integer? negative (digitsValue whole)
      | '.' :: rest =>
        let (fraction, rest) := rest.span isDigitOrUnderscore
        let fraction ← plainDigits? Char.isDigit fraction
        match rest with
        | [] => real? negative whole fraction 0
        | 'e' :: rest | 'E' :: rest => real? negative whole fraction (← exponent? rest)
        | _ => none
      | 'e' :: rest | 'E' :: rest => real? negative whole [] (← exponent? rest)
      | _ => none

/-! ### Dates and times -/

/-- Two digits within bounds. -/
def twoDigits? (low high : Nat) (a b : Char) : Option Nat :=
  let n := digitsValue [a, b]
  if a.isDigit ∧ b.isDigit ∧ low ≤ n ∧ n ≤ high then some n else none

/-- How many days a month has. -/
def daysOfMonth (year month : Nat) : Nat :=
  if month = 2 then
    if year % 4 = 0 ∧ (year % 100 ≠ 0 ∨ year % 400 = 0) then 29 else 28
  else if month ∈ [4, 6, 9, 11] then 30
  else 31

/-- The text of a date at the beginning of some characters, and the rest. -/
def date? : List Char → Option (List Char × List Char)
  | a :: b :: c :: d :: '-' :: e :: f :: '-' :: g :: h :: rest => do
    if !([a, b, c, d].all Char.isDigit) then none
    let month ← twoDigits? 1 12 e f
    let _ ← twoDigits? 1 (daysOfMonth (digitsValue [a, b, c, d]) month) g h
    return ([a, b, c, d, '-', e, f, '-', g, h], rest)
  | _ => none

/-- The text of a fraction of a second, if there is one, and the rest. It has at most nine digits
and does not end in zero. -/
def secondFraction? : List Char → Option (List Char × List Char)
  | '.' :: rest => do
    let (ds, rest) ← scanDigits rest
    let ds := ((ds.take 9).reverse.dropWhile (· == '0')).reverse
    return (if ds.isEmpty then [] else '.' :: ds, rest)
  | cs => some ([], cs)

/-- The text of a time at the beginning of some characters, and the rest. -/
def time? : List Char → Option (List Char × List Char)
  | a :: b :: ':' :: c :: d :: ':' :: e :: f :: rest => do
    let _ ← twoDigits? 0 23 a b
    let _ ← twoDigits? 0 59 c d
    let _ ← twoDigits? 0 60 e f
    let (fraction, rest) ← secondFraction? rest
    return ([a, b, ':', c, d, ':', e, f] ++ fraction, rest)
  | _ => none

/-- The text of the offset of a time. -/
def offset? : List Char → Option (List Char)
  | [] => some []
  | ['Z'] | ['z'] => some ['Z']
  | [sign, a, b, ':', c, d] => do
    if sign ≠ '+' ∧ sign ≠ '-' then none
    let hours ← twoDigits? 0 23 a b
    let minutes ← twoDigits? 0 59 c d
    return (if hours = 0 ∧ minutes = 0 then '+' else sign) :: [a, b, ':', c, d]
  | _ => none

/-- The text of a date, a time, or both with an offset. -/
def moment? (cs : List Char) : Option String :=
  match date? cs with
  | some (date, []) => some (String.ofList date)
  | some (date, mark :: rest) => do
    if mark ≠ 'T' ∧ mark ≠ 't' then none
    let (time, rest) ← time? rest
    let offset ← offset? rest
    return String.ofList (date ++ 'T' :: time ++ offset)
  | none => do
    let (time, rest) ← time? cs
    if rest.isEmpty then some (String.ofList time) else none

/-- The value of a word. -/
def word? (cs : List Char) : Option Toml :=
  match String.ofList cs with
  | "true" => some (.bool true)
  | "false" => some (.bool false)
  | _ => (number? cs).or ((moment? cs).map .str)

end BotScript.Toml
