import BotScript.Machine.Run
import BotScript.Proofs.Machine.Transition

/-!
# Reachable machines

The machines that come of loading a program and then starting, stopping, killing, stepping and
running it in any order, with any clients, any number of which may fail or never answer, and with
runs that are cancelled or fail and are taken up again. An invariant of the moves of instructions
that does not look at whether the machine runs holds of all of them.

## Main definitions

* `Machine.Reachable`: the machines reachable after a program was loaded.
* `Machine.Conserved`: a property that instructions keep, and being stopped.
* `Machine.Kept`: a property that the controls and the instructions keep.

## Main results

* `Machine.Conserved.step`, `Machine.Conserved.runOn`, `Machine.Conserved.runOnUntil`: steps and
  runs keep it too.
* `Machine.Kept.reachable`: it holds of every reachable machine, if it holds after loading.
-/

namespace BotScript.Machine

/-- The machines reachable after a program was loaded. Clients may change from one operation to the
next. -/
inductive Reachable (p : Program) : Machine → Prop
  | load (m : Machine) : Reachable p (m.load p)
  | start {m : Machine} (h : Reachable p m) : Reachable p m.start
  | stop {m : Machine} (h : Reachable p m) : Reachable p m.stop
  | kill {m : Machine} (h : Reachable p m) : Reachable p m.kill
  | step {σ : Type} {n : Nat} [ClientModel σ] (crew : Crew n) (every : Nat) (alarm : Alarm)
      (fuel : Nat) (w : World σ n) {m : Machine} (h : Reachable p m) :
      Reachable p (m.step crew every alarm fuel w).2.2
  | run {σ : Type} {n : Nat} [ClientModel σ] (crew : Crew n) (every : Nat) (expire : Option Nat)
      (fuel : Nat) (w : World σ n) {m : Machine} (h : Reachable p m) :
      Reachable p (m.run crew every expire fuel w).2.2
  | runUntilCancelled {σ : Type} {n : Nat} [ClientModel σ] (crew : Crew n) (every : Nat)
      (token : Token) (expire : Option Nat) (fuel : Nat) (w : World σ n) {m : Machine}
      (h : Reachable p m) : Reachable p (m.runUntilCancelled crew every token expire fuel w).2.2

/-- A property that instructions keep, and being stopped. -/
structure Conserved (I : Machine → Prop) : Prop where
  stop : ∀ {m : Machine}, I m → I m.stop
  moves : ∀ {m m' : Machine} {i : Instruction}, I m → m.instruction? = some i → m.Moves i m' → I m'

/-- A property that the controls and the instructions keep. -/
structure Kept (I : Machine → Prop) : Prop extends Conserved I where
  start : ∀ {m : Machine}, I m → I m.start
  kill : ∀ {m : Machine}, I m → I m.kill

variable {I : Machine → Prop}

namespace Conserved

variable {σ : Type} {n : Nat} [ClientModel σ]

theorem settle (hI : Conserved I) {m : Machine} (h : I m) : I m.settle := by
  unfold Machine.settle
  split
  · exact hI.stop h
  · exact h

theorem step (hI : Conserved I) (crew : Crew n) (every : Nat) (alarm : Alarm) (fuel : Nat)
    (w : World σ n) {m : Machine} (h : I m) : I (m.step crew every alarm fuel w).2.2 := by
  rcases step_machine crew every alarm fuel w m with hm | hm | ⟨i, m₁, -, hi, hmoves, hm⟩
  · rwa [hm]
  · rw [hm]
    exact hI.stop h
  · rw [hm]
    exact hI.settle (hI.moves h hi hmoves)

theorem runOn (hI : Conserved I) (crew : Crew n) (every : Nat) (expire : Option Nat) (fuel : Nat)
    (w : World σ n) {m : Machine} (h : I m) : I (m.runOn crew every expire fuel w).2.2 := by
  induction fuel generalizing w m with
  | zero => exact h
  | succ fuel ih =>
    rw [Machine.runOn]
    split
    · have hstep := hI.step crew every ⟨none, expire⟩ fuel w h
      split <;> rename_i heq <;> rw [heq] at hstep
      · exact ih _ hstep
      · exact ih _ hstep
      · exact hI.stop hstep
      · exact hI.stop hstep
      · exact hstep
      · exact hstep
      · exact hstep
    · exact h

theorem runOnUntil (hI : Conserved I) (crew : Crew n) (every : Nat) (token : Token)
    (expire : Option Nat) (fuel steps lines : Nat) (w : World σ n) {m : Machine} (h : I m) :
    I (m.runOnUntil crew every token expire fuel steps lines w).2.2 := by
  induction fuel generalizing steps lines w m with
  | zero => exact h
  | succ fuel ih =>
    rw [Machine.runOnUntil]
    split
    · split
      · exact hI.stop h
      · have hstep := hI.step crew every ⟨some (token.cue steps lines), expire⟩ fuel w h
        split <;> rename_i heq <;> rw [heq] at hstep
        · exact ih _ _ _ hstep
        · exact ih _ _ _ hstep
        · exact hI.stop hstep
        · exact hI.stop hstep
        · exact hstep
        · exact hstep
        · exact hstep
    · exact h

end Conserved

/-- What holds after loading a program and is kept holds of every reachable machine. -/
theorem Kept.reachable (hI : Kept I) {p : Program} (hload : ∀ m : Machine, I (m.load p))
    {m : Machine} (h : Reachable p m) : I m := by
  induction h with
  | load m => exact hload m
  | start _ ih => exact hI.start ih
  | stop _ ih => exact hI.stop ih
  | kill _ ih => exact hI.kill ih
  | step crew every alarm fuel w _ ih => exact hI.step crew every alarm fuel w ih
  | run crew every expire fuel w _ ih => exact hI.runOn crew every expire fuel w (hI.start ih)
  | runUntilCancelled crew every token expire fuel w _ ih =>
    exact hI.runOnUntil crew every token expire fuel 0 0 w (hI.start ih)

end BotScript.Machine
