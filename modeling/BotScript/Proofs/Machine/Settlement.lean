import BotScript.Proofs.Activity.Pairing
import BotScript.Proofs.Machine.Cancellation
import BotScript.Proofs.Machine.Plans

/-!
# Calls end with their instruction

Every call that is made in the course of an instruction is answered, fails or is dropped by the time
the instruction is over, whether it is done, has failed, or was stopped from outside. So calls of
different instructions never overlap, and no client ever has two calls under way.

## Main results

* `Machine.step_pairs`: what a step writes down.
* `Machine.Steps.pairs`: what complete steps write down.
* `Machine.runOn_pairs`, `Machine.runOnUntil_pairs`: what a run writes down.
* `Machine.calls_settled`: all of this, for any machine.
-/

namespace BotScript

open World Cast

variable {σ : Type} {n : Nat}

/-- What was written down since is well paired; if it is over by then, no call is under way. -/
def World.Settles (w₀ w : World σ n) (finished : Bool) : Prop :=
  ∃ pending, Pairs w₀ w pending ∧ (finished = true → pending = .none)

theorem World.Pairs.settles {w₀ w : World σ n} (h : Pairs w₀ w .none) (finished : Bool) :
    Settles w₀ w finished := ⟨.none, h, fun _ => rfl⟩

theorem World.Pairs.trans_settles {u v w : World σ n} {finished : Bool} (huv : Pairs u v .none)
    (hvw : Settles v w finished) : Settles u w finished := by
  obtain ⟨pending, hpairs, hover⟩ := hvw
  exact ⟨pending, huv.trans hpairs, hover⟩

namespace Machine

/-- Whether a step is over: it has not run out of fuel, and does not wait for ever. -/
def StepResult.isOver : StepResult → Bool
  | never | outOfFuel => false
  | _ => true

/-- Whether a run is over: it has not run out of fuel, and does not wait for ever. -/
def RunResult.isOver : RunResult → Bool
  | never | outOfFuel => false
  | _ => true

variable {crew : Crew n} {every : Nat} {expire : Option Nat} {fuel k : Nat} {w w' w₁ : World σ n}
  {m m' m₁ : Machine} {r : StepResult}

/-- A step writes the lines of its instruction after its last call has ended. -/
theorem conclude_settles {o : Outcome σ n Effect} (h : o.Pairs w) :
    Settles w (m.conclude o).2.1 (m.conclude o).1.isOver := by
  cases o with
  | ended w₁ result =>
    cases result with
    | ok effect => exact (World.Pairs.log h effect.lines).settles _
    | error f => exact World.Pairs.settles h _
  | cancelled w₁ => exact World.Pairs.settles h _
  | expired w₁ => exact World.Pairs.settles h _
  | never w₁ =>
    obtain ⟨pending, hpairs⟩ := h
    exact ⟨pending, hpairs, (nomatch ·)⟩
  | outOfFuel w₁ =>
    obtain ⟨pending, hpairs⟩ := h
    exact ⟨pending, hpairs, (nomatch ·)⟩

variable [ClientModel σ]

/-- What a step writes down is well paired, and no call is left when it is over. -/
theorem step_pairs (crew : Crew n) (every : Nat) (alarm : Alarm) (fuel : Nat) (w : World σ n)
    (m : Machine) : Settles w (m.step crew every alarm fuel w).2.1
      (m.step crew every alarm fuel w).1.isOver := by
  rcases step_cases crew every alarm w m with ⟨i, hstep⟩ | ⟨m', hstep⟩
  · rw [hstep]
    exact conclude_settles
      (Activity.run_pairs (i.clients_pairwise n) (m.plan_tidy crew every i) crew alarm fuel w)
  · rw [hstep]
    exact (Pairs.refl w).settles _

/-- A step that has carried out its instruction leaves no call under way. -/
theorem pairs_of_isDone {alarm : Alarm} (hstep : m.step crew every alarm fuel w = (r, w₁, m₁))
    (hr : r.isDone = true) : Pairs w w₁ .none := by
  obtain ⟨pending, hpairs, hover⟩ := step_pairs crew every alarm fuel w m
  rw [hstep] at hpairs hover
  have hisOver : r.isOver = true := by
    cases r <;> first | rfl | cases hr
  exact hover hisOver ▸ hpairs

/-- Between two instructions no call is under way. -/
theorem Steps.pairs (h : Steps crew every expire k w m w' m') : Pairs w w' .none := by
  induction h with
  | refl w m => exact .refl w
  | next _ hstep hr _ ih => exact (pairs_of_isDone hstep hr).trans ih

omit [ClientModel σ] in
theorem halt_isOver (w : World σ n) (m : Machine) (r : StepResult) :
    (m.halt w r).1.isOver = r.isOver := by
  cases r <;> rfl

/-- What a run writes down is well paired, and no call is left when it is over. -/
theorem runOn_pairs (crew : Crew n) (every : Nat) (expire : Option Nat) (fuel : Nat) (w : World σ n)
    (m : Machine) : Settles w (m.runOn crew every expire fuel w).2.1
      (m.runOn crew every expire fuel w).1.isOver := by
  induction fuel generalizing w m with
  | zero => exact (Pairs.refl w).settles _
  | succ fuel ih =>
    cases begins crew every expire fuel w m with
    | idle hidle =>
      rw [runOn_of_not_running hidle]
      exact (Pairs.refl w).settles _
    | goesOn hrunning hstep hr =>
      rw [runOn_of_isDone hrunning hstep hr]
      exact (pairs_of_isDone hstep hr).trans_settles (ih _ _)
    | halts hrunning hstep hr =>
      have hlast := step_pairs crew every ⟨none, expire⟩ fuel w m
      rw [hstep] at hlast
      rwa [runOn_of_not_isDone hrunning hstep hr, halt_world, halt_isOver]

/-- A run that is cancelled leaves no call under way. -/
theorem CancelledAfter.pairs {token : Token} {steps lines : Nat}
    {result : RunResult × World σ n × Machine}
    (h : CancelledAfter crew every token expire steps lines k w m result) :
    Pairs w result.2.1 .none := by
  obtain ⟨w₁, m₁, w', written, hsteps, -, rfl, -, -, ⟨rfl, -⟩ | ⟨-, fuel, hstep⟩⟩ := h
  · exact hsteps.pairs
  · obtain ⟨pending, hpairs, hover⟩ := step_pairs crew every
      ⟨some (token.cue (steps + k) (lines + written)), expire⟩ fuel w₁ m₁
    rw [hstep] at hpairs hover
    exact hsteps.pairs.trans (hover rfl ▸ hpairs)

/-- What a run with a token writes down is well paired, and no call is left when it is over. -/
theorem runOnUntil_pairs (crew : Crew n) (every : Nat) (token : Token) (expire : Option Nat)
    (fuel : Nat) (w : World σ n) (m : Machine) :
    Settles w (m.runOnUntil crew every token expire fuel 0 0 w).2.1
      (m.runOnUntil crew every token expire fuel 0 0 w).1.isOver := by
  rcases runOnUntil_cancelled_or_eq crew every token expire fuel 0 0 w m with
    ⟨k, hcancelled⟩ | hsame
  · exact hcancelled.pairs.settles _
  · rw [hsame]
    exact runOn_pairs crew every expire fuel w m

/-- Every call is made to a client that has none under way, and comes to exactly one end: by the
time a step is over, and so between any two instructions, and by the time a run is over, cancelled
or not. At any other moment, what was written down so far is well paired. -/
theorem calls_settled (crew : Crew n) (every : Nat) (w : World σ n) (m : Machine) :
    (∀ alarm fuel, Settles w (m.step crew every alarm fuel w).2.1
        (m.step crew every alarm fuel w).1.isOver) ∧
    (∀ expire k w' m', Steps crew every expire k w m w' m' → Pairs w w' .none) ∧
    (∀ expire fuel, Settles w (m.run crew every expire fuel w).2.1
        (m.run crew every expire fuel w).1.isOver) ∧
    ∀ token expire fuel, Settles w (m.runUntilCancelled crew every token expire fuel w).2.1
      (m.runUntilCancelled crew every token expire fuel w).1.isOver :=
  ⟨fun alarm fuel => step_pairs crew every alarm fuel w m, fun _ _ _ _ hsteps => hsteps.pairs,
    fun expire fuel => runOn_pairs crew every expire fuel w m.start,
    fun token expire fuel => runOnUntil_pairs crew every token expire fuel w m.start⟩

/-- Both use a potion, and the run is cancelled after 50 milliseconds. -/
def potionsRun : RunResult × World Rehearsal 2 × Machine :=
  (idle.load ⟨[.act .all .usePotion]⟩).runUntilCancelled pair 100
    ⟨none, some 50, none, none⟩ none 20
    twoClients

/-- By then, one call has been answered; the other one is dropped. -/
theorem potions_settled :
    potionsRun.2.1.history = [.made 0 0 .usePotion false, .made 0 1 .usePotion false,
        .answered 10 0 .usePotion (), .dropped 50 1 .usePotion] ∧
      Pairs twoClients potionsRun.2.1 .none := by
  refine ⟨by rfl, ?_⟩
  obtain ⟨pending, hpairs, hover⟩ := (calls_settled pair 100 twoClients
    (idle.load ⟨[.act .all .usePotion]⟩)).2.2.2 ⟨none, some 50, none, none⟩ none 20
  have hisOver : potionsRun.1.isOver = true := by rfl
  exact hover hisOver ▸ hpairs

end Machine

end BotScript
