import BotScript.Proofs.Machine.Runs
import BotScript.Proofs.Script.Execution

/-!
# A machine that keeps up with an execution

A machine tracks a part of an execution if it comes to the same world and the same variables by
complete steps, and ends as the execution ends. Where the execution lacks fuel, the machine is at
least as far from its end: it has work left for as much fuel as the execution had.

## Main definitions

* `Machine.upshot`: how a run of a machine ends, in the words for executions.
* `Machine.Leads`: some complete steps lead from one machine to another.
* `Machine.Concludes`: a run comes to an end.
* `Machine.Tracks`: a machine keeps up with a part of an execution.

## Main results

* `Machine.Tracks.bind`, `Machine.Tracks.andLeads`: tracking one part after the other.
* `Machine.tracks_repeatWhile`: tracking a loop, given how the machine tracks one round.
* `Machine.tracks_perform`: an instruction tracks what it does with the clients.
-/

namespace BotScript

open Activity

/-- Without a time to cancel it, an activity is not cancelled. -/
theorem Running.run_ne_cancelled {σ : Type} {n : Nat} {α : Type} [ClientModel σ] (crew : Crew n)
    (expire : Option Nat) (fuel : Nat) (w w' : World σ n) (r : Running n α) :
    r.run crew ⟨none, expire⟩ fuel w ≠ .cancelled w' := by
  induction fuel generalizing w r with
  | zero => simp [run]
  | succ fuel ih =>
    rw [run_eq]
    cases r.advance crew w with
    | moved w₁ r₁ => exact ih w₁ r₁
    | ended w₁ result => simp
    | waits till =>
      dsimp only
      cases hbell : Alarm.bell ⟨none, expire⟩ till with
      | wake t => exact ih _ _
      | expire t => simp
      | never => simp
      | cancel t =>
        -- A bell without a time to cancel rings for waking or expiring.
        cases expire with
        | none => cases till <;> cases hbell
        | some e =>
          cases till with
          | none => cases hbell
          | some t' =>
            change (if t' ≤ e then Bell.wake t' else .expire e) = .cancel t at hbell
            split at hbell <;> cases hbell

namespace Machine

variable {σ : Type} {n : Nat} [ClientModel σ] {crew : Crew n} {every : Nat} {expire : Option Nat}
  {a b count less : Nat} {w w₁ w' : World σ n} {m m₁ m' : Machine} {vars vars' : Variables}
  {α β : Type}

/-- How a run ends. A machine that has stopped before the end of its program was killed. -/
def upshot (m : Machine) : RunResult → Upshot
  | .done => if m.ip < m.program.length then .killed else .finished
  | .failed f => .failed f
  | .expired => .expired
  | .never => .never
  | .outOfFuel => .outOfFuel

/-- At least a number of complete steps lead from one machine to another, none of which kills it. -/
def Leads (crew : Crew n) (every : Nat) (expire : Option Nat) (least : Nat) (w : World σ n)
    (m : Machine) (w' : World σ n) (m' : Machine) : Prop :=
  ∃ k, least ≤ k ∧ Steps crew every expire k w m w' m' ∧ m'.killed = m.killed

/-- A run comes to an end, with the world and the variables then. -/
def Concludes (crew : Crew n) (every : Nat) (expire : Option Nat) (e : Upshot) (w : World σ n)
    (m : Machine) (w' : World σ n) (vars' : Variables) : Prop :=
  ∃ fuel r m', m.runOn crew every expire fuel w = (r, w', m') ∧ r ≠ .outOfFuel ∧ m'.upshot r = e ∧
    m'.vars = vars' ∧ m'.killed = (m.killed || e == .killed)

/-- A machine keeps up with a part of an execution: where that goes on, the machine comes to `dest`
in at least a number of steps; where it ends, the machine does; and where it lacks fuel, the machine
has at least `count` steps to do. -/
def Tracks (crew : Crew n) (every : Nat) (expire : Option Nat) (least count : Nat)
    (dest : α → Variables → Machine) (w : World σ n) (m : Machine) : Course σ n α → Prop
  | .goesOn x w' vars' => Leads crew every expire least w m w' (dest x vars')
  | .ends .outOfFuel w' _ => Pending crew every expire count w m w'
  | .ends e w' vars' => Concludes crew every expire e w m w' vars'

/-! ### One part after the other -/

theorem Leads.refl (w : World σ n) (m : Machine) : Leads crew every expire 0 w m w m :=
  ⟨0, Nat.le_refl 0, .refl w m, rfl⟩

theorem Leads.trans (h : Leads crew every expire a w m w₁ m₁)
    (h' : Leads crew every expire b w₁ m₁ w' m') :
    Leads crew every expire (a + b) w m w' m' := by
  obtain ⟨j, hj, hsteps, hkilled⟩ := h
  obtain ⟨k, hk, hsteps', hkilled'⟩ := h'
  exact ⟨j + k, Nat.add_le_add hj hk, hsteps.trans hsteps', hkilled'.trans hkilled⟩

theorem Leads.mono (h : Leads crew every expire a w m w' m') (hle : b ≤ a) :
    Leads crew every expire b w m w' m' := by
  obtain ⟨k, hk, hsteps, hkilled⟩ := h
  exact ⟨k, Nat.le_trans hle hk, hsteps, hkilled⟩

/-- A run that comes to an end after some steps comes to it with them. -/
theorem Leads.concludes {e : Upshot} (h : Leads crew every expire a w m w₁ m₁)
    (h' : Concludes crew every expire e w₁ m₁ w' vars') :
    Concludes crew every expire e w m w' vars' := by
  obtain ⟨k, -, hsteps, hkilled⟩ := h
  obtain ⟨fuel, r, m', hrun, hr, hupshot, hvars, hkilled'⟩ := h'
  -- Fuel for the steps, and behind them as much as the rest of the run needs.
  obtain ⟨enough, henough⟩ := hsteps.runOn_add
  refine ⟨max enough fuel + k, r, m', ?_, hr, hupshot, hvars, by rw [hkilled', hkilled]⟩
  have hmore := runOn_eq_of_le (Nat.le_max_right enough fuel) (by rwa [hrun])
  rw [henough _ (Nat.le_max_left enough fuel), hmore, hrun]

variable {dest dest' : α → Variables → Machine} {x : Course σ n α}

/-- Tracking a part of an execution from where some steps lead. -/
theorem Leads.tracks (h : Leads crew every expire a w m w₁ m₁)
    (hx : Tracks crew every expire b count dest w₁ m₁ x) :
    Tracks crew every expire (a + b) (a + count) dest w m x := by
  cases x with
  | goesOn y w' vars' => exact h.trans hx
  | ends e w' vars' =>
    cases e with
    | outOfFuel =>
      obtain ⟨k, hk, hsteps, -⟩ := h
      exact (Pending.after_steps hsteps hx).mono (Nat.add_le_add_right hk count)
    | _ => exact h.concludes hx

theorem Tracks.mono (h : Tracks crew every expire a count dest w m x) (hle : b ≤ a)
    (hless : less ≤ count) : Tracks crew every expire b less dest w m x := by
  cases x with
  | goesOn y w' vars' => exact Leads.mono h hle
  | ends e w' vars' =>
    cases e with
    | outOfFuel => exact Pending.mono h hless
    | _ => exact h

theorem Tracks.weaken (h : Tracks crew every expire a count dest w m x) :
    Tracks crew every expire 0 count dest w m x :=
  h.mono (Nat.zero_le a) (Nat.le_refl count)

theorem tracks_pure {y : α} (h : dest y vars = m) :
    Tracks crew every expire 0 count dest w m ((pure y : Exec σ n α) w vars) := by
  subst h
  exact Leads.refl w _

/-- Tracking one part of an execution after the other. -/
theorem Tracks.bind {y : Exec σ n α} {f : α → Exec σ n β} {dest' : β → Variables → Machine}
    (hy : Tracks crew every expire a count dest w m (y w vars))
    (hf : ∀ r w' vars', Tracks crew every expire b count dest' w' (dest r vars') (f r w' vars')) :
    Tracks crew every expire (a + b) count dest' w m ((y >>= f) w vars) := by
  change Tracks crew every expire (a + b) count dest' w m (y.bind f w vars)
  unfold Exec.bind
  cases hcourse : y w vars with
  | goesOn r w' vars' =>
    rw [hcourse] at hy
    exact (Leads.tracks hy (hf r w' vars')).mono (Nat.le_refl _) (Nat.le_add_left count a)
  | ends e w' vars' =>
    rw [hcourse] at hy
    cases e <;> exact hy

/-- Tracking one part after the other, where only the steps of the first one are counted. -/
theorem Tracks.bind_left {y : Exec σ n α} {f : α → Exec σ n β} {dest' : β → Variables → Machine}
    (hy : Tracks crew every expire a count dest w m (y w vars))
    (hf : ∀ r w' vars', Tracks crew every expire 0 count dest' w' (dest r vars') (f r w' vars')) :
    Tracks crew every expire a count dest' w m ((y >>= f) w vars) :=
  hy.bind hf

/-- Tracking one part after the other, where only the steps of the second one are counted. -/
theorem Tracks.bind_right {y : Exec σ n α} {f : α → Exec σ n β} {dest' : β → Variables → Machine}
    (hy : Tracks crew every expire 0 count dest w m (y w vars))
    (hf : ∀ r w' vars', Tracks crew every expire b count dest' w' (dest r vars') (f r w' vars')) :
    Tracks crew every expire b count dest' w m ((y >>= f) w vars) :=
  (hy.bind hf).mono (Nat.le_add_left b 0) (Nat.le_refl count)

/-- Where the machine comes to by tracking, it goes on by itself. -/
theorem Tracks.andLeads (hx : Tracks crew every expire a count dest w m x)
    (h : ∀ r (w' : World σ n) vars',
      Leads crew every expire b w' (dest r vars') w' (dest' r vars')) :
    Tracks crew every expire a count dest' w m x := by
  cases x with
  | goesOn r w' vars' => exact (Leads.trans hx (h r w' vars')).mono (Nat.le_add_right a b)
  | ends e w' vars' => cases e <;> exact hx

/-- Tracking a loop: a machine that tracks the first round, and from there on each further one with
at least one step, tracks all rounds. -/
theorem tracks_repeatWhile {round : Exec σ n Bool} {again exit : Variables → Machine}
    (hround : ∀ (w : World σ n) vars, Tracks crew every expire 1 count
      (fun more => if more then again else exit) w (again vars) (round w vars))
    {rounds : Nat} (hle : rounds ≤ count)
    (hfirst : Tracks crew every expire 1 count (fun more => if more then again else exit) w m
      (round w vars)) :
    Tracks crew every expire 0 rounds (fun _ =>
      exit) w m (Exec.repeatWhile round rounds w vars) := by
  induction rounds generalizing w m vars with
  | zero => exact ⟨0, 0, w, m, m, .refl w m, Nat.le_refl 0, rfl⟩
  | succ rounds ih =>
    change Tracks crew every expire 0 (rounds + 1) (fun _ => exit) w m (Exec.bind round _ w vars)
    unfold Exec.bind
    cases hcourse : round w vars with
    | ends e w' vars' =>
      rw [hcourse] at hfirst
      have hends := hfirst.mono (Nat.zero_le 1) hle
      cases e <;> exact hends
    | goesOn more w' vars' =>
      rw [hcourse] at hfirst
      cases more with
      | true =>
        -- A round is a step at least, so one round less still leaves steps enough.
        have hothers := ih (Nat.le_of_succ_le hle) (hround w' vars')
        exact (Leads.tracks hfirst hothers).mono (Nat.zero_le _)
          (Nat.le_of_eq (Nat.add_comm rounds 1))
      | false => exact Leads.mono hfirst (Nat.zero_le 1)

/-! ### Instructions -/

variable {i : Instruction} {fuel : Nat}

@[simp] theorem settle_killed (m : Machine) : m.settle.killed = m.killed := by
  unfold settle
  split <;> rfl

/-- A step whose plan comes to a good end leads on. -/
theorem leads_of_step {effect : Effect} (hrunning : m.running = true)
    (hstep : m.step crew every ⟨none, expire⟩ fuel w = m.conclude (.ended w' (.ok effect)))
    (hkilled : effect.machine.killed = m.killed) :
    Leads crew every expire 1 w m (w'.log effect.lines) effect.machine.settle := by
  have hdone : (if effect.machine.settle.running then StepResult.goesOn effect.lines.length
      else .done effect.lines.length).isDone = true := by
    split <;> rfl
  refine ⟨1, Nat.le_refl 1, .next hrunning hstep hdone (.refl _ _), ?_⟩
  rw [settle_killed, hkilled]

/-- An instruction with nothing to ask leads on. -/
theorem leads_instant {effect : Effect} (hrunning : m.running = true) (hi : m.instruction? = some i)
    (hplan : m.plan crew every i = .done effect) (hkilled : effect.machine.killed = m.killed) :
    Leads crew every expire 1 w m (w.log effect.lines) effect.machine.settle := by
  have hstep : m.step crew every ⟨none, expire⟩ 1 w = m.conclude (.ended w (.ok effect)) := by
    rw [step_of_instruction hrunning hi, hplan]
    rfl
  exact leads_of_step hrunning hstep hkilled

/-- A run ends with a step that does not carry out its instruction. -/
theorem concludes_of_step {r : StepResult} {e : Upshot} (hrunning : m.running = true)
    (hstep : m.step crew every ⟨none, expire⟩ fuel w = (r, w', m)) (hr : r.isDone = false)
    (hfuel : r ≠ .outOfFuel) (hupshot : (m.halt w' r).2.2.upshot (m.halt w' r).1 = e)
    (he : e ≠ .killed) : Concludes crew every expire e w m w' m.vars := by
  refine ⟨fuel + 1, (m.halt w' r).1, (m.halt w' r).2.2, ?_, ?_, hupshot, ?_, ?_⟩
  · rw [runOn_of_not_isDone hrunning hstep hr]
    cases r <;> rfl
  · exact fun hout => hfuel (halt_outOfFuel hout)
  · cases r <;> rfl
  · have hkilled : (m.halt w' r).2.2.killed = m.killed := by cases r <;> rfl
    rw [hkilled, beq_eq_false_iff_ne.mpr he, Bool.or_false]

/-- An instruction tracks what it does with the clients, and what follows from their
answers at once. -/
theorem tracks_perform {y : Variables → Activity n α} {effect : α → Effect} {after : α → Exec σ n β}
    {dest : β → Variables → Machine} (result : α → β) (hrunning : m.running = true)
    (hi : m.instruction? = some i)
    (hplan : m.plan crew every i = (y m.vars).bind fun r => lift (.ok (effect r)))
    (hkilled : ∀ r, (effect r).machine.killed = m.killed)
    (hafter : ∀ r (w : World σ n), after r w m.vars =
      .goesOn (result r) (w.log (effect r).lines) (effect r).machine.vars)
    (hdest : ∀ r, dest (result r) (effect r).machine.vars = (effect r).machine.settle) :
    Tracks crew every expire 1 count dest w m
      ((Exec.perform crew expire count y >>= after) w m.vars) := by
  have hstep : m.step crew every ⟨none, expire⟩ count w =
      m.conclude (((y m.vars).run crew ⟨none, expire⟩ count w).andThen fun r =>
        .ok (effect r)) := by
    rw [step_of_instruction hrunning hi, hplan, Activity.run_bind_lift]
  change Tracks crew every expire 1 count dest w m (Exec.bind _ after w m.vars)
  unfold Exec.bind Exec.perform
  -- The step and the execution run the same activity with the same fuel, so they come to the same.
  cases hrun : (y m.vars).run crew ⟨none, expire⟩ count w with
  | ended w' answer =>
    rw [hrun] at hstep
    cases answer with
    | ok r =>
      dsimp only
      rw [hafter]
      change Leads crew every expire 1 w m _ (dest (result r) _)
      rw [hdest]
      exact leads_of_step hrunning hstep (hkilled r)
    | error f => exact concludes_of_step hrunning hstep rfl (by simp) rfl (by simp)
  | never w' =>
    rw [hrun] at hstep
    exact concludes_of_step hrunning hstep rfl (by simp) rfl (by simp)
  | expired w' =>
    rw [hrun] at hstep
    exact concludes_of_step hrunning hstep rfl (by simp) rfl (by simp)
  | cancelled w' => exact absurd hrun (Running.run_ne_cancelled crew expire count w w' _)
  | outOfFuel w' =>
    rw [hrun] at hstep
    refine ⟨0, count + 1, w, m, m, .refl w m, by omega, ?_⟩
    exact runOn_of_not_isDone hrunning hstep rfl

end Machine

end BotScript
