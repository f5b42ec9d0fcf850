import BotScript.Number.Parts

/-!
# Lengths of time

Scripts give lengths of time in seconds, as doubles. They are kept as whole nanoseconds, and the
clock of a run ticks in milliseconds, so a wait ends at the first tick that is not too early.

## Main definitions

* `Duration`: a length of time.
* `Duration.ofSeconds`: the nearest length of time to a number of seconds, if it is one.
* `Duration.ticks`: how many milliseconds a wait takes.
-/

namespace BotScript

/-- A length of time in nanoseconds. -/
structure Duration where
  nanoseconds : Nat
  deriving DecidableEq, Repr

namespace Duration

/-- Why a number of seconds is no length of time. -/
inductive Fault where
  | negative
  | tooLong
  deriving DecidableEq, Repr

/-- The message of a fault. -/
def Fault.message : Fault → String
  | negative => "cannot convert float seconds to Duration: value is negative"
  | tooLong => "cannot convert float seconds to Duration: value is either too big or NaN"

/-- How many nanoseconds a second has. -/
def nanosecondsPerSecond : Nat := 1000000000

/-- The whole seconds of a length of time fit in a word of 64 bits. -/
def bound : Nat := UInt64.size * nanosecondsPerSecond

/-- The nearest length of time to a number of seconds; a half goes to the even neighbour. -/
def ofSeconds (seconds : Float) : Except Fault Duration :=
  match Number.Parts.ofFloat seconds with
  | .notANumber | .infinite false => .error .tooLong
  | .infinite true => .error .negative
  | .finite negative m e =>
    if negative ∧ m ≠ 0 then .error .negative
    else
      let (num, den) := Number.binaryFraction m e
      let nanoseconds := Number.roundQuotient .toEven (num * nanosecondsPerSecond) den
      if nanoseconds < bound then .ok ⟨nanoseconds⟩ else .error .tooLong

/-- How many milliseconds pass before a wait of this length is over. -/
def ticks (d : Duration) : Nat := (d.nanoseconds + 999999) / 1000000

end Duration

end BotScript
