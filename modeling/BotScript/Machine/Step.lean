import BotScript.Machine.Routine

/-!
# One instruction

A step carries out the routine of the next instruction.

## Main definitions

* `Machine.step`: carry out the next instruction.
-/

namespace BotScript.Machine

/-- Carry out the next instruction, unless the machine is not running. Without fuel no
instruction is begun. -/
def step {σ : Type} {n : Nat} [ClientModel σ] (crew : Crew n) (every : Nat) (alarm : Alarm)
    (fuel : Nat) (w : World σ n) (m : Machine) : StepResult × World σ n × Machine :=
  if m.running then
    match m.instruction? with
    | none => (.done 0, w, m.stop)
    | some i =>
      if fuel = 0 then (.outOfFuel, w, m)
      else (i.routine crew every).run crew fuel alarm 0 w m
  else (.done 0, w, m)

end BotScript.Machine
