import BotScript.Client.DryRun
import BotScript.Machine.Run

/-!
# Dry runs

A dry run carries out a program with clients that do nothing, for a number of instructions at most,
and reports what the clients would have done.

## Main definitions

* `DryRun.rehearse`: run a machine, for a number of instructions at most.
* `DryRun.crew`: the clients of a dry run.
* `DryRun.Finished.report`: what is printed in the end.
-/

namespace BotScript.DryRun

variable {n : Nat}

/-- How a dry run ends. -/
inductive Ending where
  /-- The machine has stopped, by itself or because the number of instructions was reached. -/
  | stopped (limited : Bool)
  /-- An instruction failed. -/
  | failed (f : Fault)
  /-- An instruction waits for something that never comes. -/
  | never
  | outOfFuel

/-- A dry run that has come to its end: how, after how many instructions, and where
everything stands. -/
structure Finished (n : Nat) where
  ending : Ending
  steps : Nat
  world : World DryRun n
  machine : Machine

/-- Run a machine until it stops, or for a number of instructions at most; some have
been carried out. -/
def rehearse (crew : Crew n) (every : Nat) (limit : Option Nat) :
    Nat → Nat → World DryRun n → Machine → Finished n
  | 0, steps, w, m => ⟨.outOfFuel, steps, w, m⟩
  | fuel + 1, steps, w, m =>
    if !m.running then ⟨.stopped false, steps, w, m⟩
    else if limit.any (· ≤ steps) then ⟨.stopped true, steps, w, m.stop⟩
    else
      match m.step crew every ⟨none, none⟩ fuel w with
      | (.goesOn _, w, m) | (.done _, w, m) => rehearse crew every limit fuel (steps + 1) w m
      | (.failed f, w, m) => ⟨.failed f, steps, w, m⟩
      | (.outOfFuel, w, m) => ⟨.outOfFuel, steps, w, m⟩
      | (.cancelled, w, m) | (.expired, w, m) | (.never, w, m) => ⟨.never, steps, w, m⟩

/-- The clients of a dry run, numbered from one. -/
def crew (n : Nat) : Crew n := Vector.ofFn fun i => ⟨"p" ++ toString (i.val + 1), none⟩

/-- A dry run of a program from its beginning. -/
def ofProgram (n every : Nat) (limit : Option Nat) (fuel : Nat) (p : Program) : Finished n :=
  rehearse (crew n) every limit fuel 0 (.initial (Vector.replicate n .fresh))
    (Machine.idle.load p).start

/-- The line about a client. -/
def clientLine (w : World DryRun n) (i : Fin n) : String :=
  "  " ++ (crew n).title i ++ ": " ++ toString (w.clients.get i).actions.toNat ++ " action(s)\n"

/-- What is printed at the end of a dry run. -/
def Finished.report (f : Finished n) : String :=
  let limited := match f.ending with
    | .stopped true => "Stopped after " ++ toString f.steps ++ " steps (--max-steps)\n"
    | _ => ""
  limited ++ "Steps: " ++ toString f.steps ++ "\n" ++
    "Killed: " ++ toString f.machine.killed ++ "\n" ++
    String.join ((List.finRange n).map (clientLine f.world))

end BotScript.DryRun
