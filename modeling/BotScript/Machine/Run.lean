import BotScript.Machine.Step

/-!
# Runs

A run carries out one instruction after the other until the machine stops. A token may cancel it: it
is looked at before each instruction, and wherever an instruction waits. The instruction that is
under way is given up as it is then.

## Main definitions

* `Token`: when a run is cancelled.
* `Machine.run`: run until the machine stops or an instruction fails.
* `Machine.runUntilCancelled`: the same, with a token.
* `Machine.steps`: carry out a number of instructions.
-/

namespace BotScript

/-- When a run is cancelled: after a number of instructions, at a time, after a number of lines, or
within an instruction, of which the run has done so many before, after a number of its small steps.
Whatever comes first counts. -/
structure Token where
  steps : Option Nat
  time : Option Nat
  lines : Option Nat
  within : Option (Nat × Nat) := none

namespace Token

/-- The token that never cancels. -/
def never : Token := ⟨none, none, none, none⟩

/-- Whether a run is cancelled that has done some instructions and written some lines by a time. -/
def rings (t : Token) (steps lines now : Nat) : Bool :=
  t.steps.any (· ≤ steps) || t.time.any (· ≤ now) || t.lines.any (· ≤ lines) ||
    t.within.any (·.1 < steps)

/-- When the next instruction is cancelled, after some instructions and lines. -/
def cue (t : Token) (steps lines : Nat) : Cue where
  time := t.time
  moves := t.within.bind fun (k, moves) => if k = steps then some moves else none
  lines := t.lines.map (· - lines)

end Token

namespace Machine

variable {σ : Type} {n : Nat} [ClientModel σ]

/-- How a run ends. -/
inductive RunResult where
  /-- The machine has stopped, or the run was cancelled. -/
  | done
  | failed (f : Fault)
  /-- The time for the run was over; the machine is still running. -/
  | expired
  /-- An instruction waits for something that never comes. -/
  | never
  | outOfFuel

/-- Run until the machine stops. -/
def runOn (crew : Crew n) (every : Nat) (expire : Option Nat) :
    Nat → World σ n → Machine → RunResult × World σ n × Machine
  | 0, w, m => (.outOfFuel, w, m)
  | fuel + 1, w, m =>
    if m.running then
      match m.step crew every ⟨none, expire⟩ fuel w with
      | (.goesOn _, w, m) | (.done _, w, m) => runOn crew every expire fuel w m
      | (.failed f, w, m) => (.failed f, w, m.stop)
      | (.cancelled, w, m) => (.done, w, m.stop)
      | (.expired, w, m) => (.expired, w, m)
      | (.never, w, m) => (.never, w, m)
      | (.outOfFuel, w, m) => (.outOfFuel, w, m)
    else (.done, w, m)

/-- Start the machine, and run until it stops, an instruction fails, or the time is over. -/
def run (crew : Crew n) (every : Nat) (expire : Option Nat) (fuel : Nat) (w : World σ n)
    (m : Machine) : RunResult × World σ n × Machine :=
  m.start.runOn crew every expire fuel w

/-- Run until the machine stops or the token cancels the run, which so far has done some
instructions and written some lines. -/
def runOnUntil (crew : Crew n) (every : Nat) (token : Token) (expire : Option Nat) :
    Nat → Nat → Nat → World σ n → Machine → RunResult × World σ n × Machine
  | 0, _, _, w, m => (.outOfFuel, w, m)
  | fuel + 1, steps, lines, w, m =>
    if m.running then
      if token.rings steps lines w.now then (.done, w, m.stop)
      else
        match m.step crew every ⟨some (token.cue steps lines), expire⟩ fuel w with
        | (.goesOn more, w, m) | (.done more, w, m) =>
          runOnUntil crew every token expire fuel (steps + 1) (lines + more) w m
        | (.failed f, w, m) => (.failed f, w, m.stop)
        | (.cancelled, w, m) => (.done, w, m.stop)
        | (.expired, w, m) => (.expired, w, m)
        | (.never, w, m) => (.never, w, m)
        | (.outOfFuel, w, m) => (.outOfFuel, w, m)
    else (.done, w, m)

/-- Start the machine, and run until it stops, an instruction fails, the token cancels the run, or
the time is over. -/
def runUntilCancelled (crew : Crew n) (every : Nat) (token : Token) (expire : Option Nat)
    (fuel : Nat) (w : World σ n) (m : Machine) : RunResult × World σ n × Machine :=
  m.start.runOnUntil crew every token expire fuel 0 0 w

/-- Carry out up to a number of instructions, each in a limited time. Gives how the last one ended,
if it is not the number that ended it, and the place of the machine after each, last first. -/
def steps (crew : Crew n) (every patience fuel : Nat) :
    Nat → List Nat → World σ n → Machine → Option StepResult × List Nat × World σ n × Machine
  | 0, places, w, m => (none, places, w, m)
  | count + 1, places, w, m =>
    match m.step crew every ⟨none, some (w.now + patience)⟩ fuel w with
    | (.goesOn _, w, m) => steps crew every patience fuel count (m.ip :: places) w m
    | (r, w, m) => (some r, m.ip :: places, w, m)

end Machine

end BotScript
