import BotScript.Proofs.Activity.Tidy
import BotScript.Proofs.Client.Cast
import BotScript.Proofs.Machine.Runs

/-!
# Cancelled runs

A run may be cancelled before it starts, between two instructions, at any instant at which an
instruction waits, or from within the log while an instruction writes its lines. Whenever that is,
the machine and the log are left as they are between two instructions of the run that is not
cancelled: what the instruction under way has done so far shows only in the calls that it made and
that were dropped.

## Main definitions

* `Alarm.Cancels`: an alarm has had a reason to cancel.
* `Cue.after`: a cue that is given after a number of small steps.
* `Machine.CancelledAfter`: a run is cancelled after a number of complete steps.

## Main results

* `Running.run_cancelled_or_eq`, `Machine.step_cancelled_or_eq`: what is not cancelled is not
  affected.
* `Running.Comes.exists_cancelled`: an activity can be cancelled wherever it waits.
* `Machine.runOnUntil_cancelled_or_eq`: a run with a token is cancelled after some complete steps,
  or is the run without one.
* `Machine.runOnUntil_stops`: a token that rings between two instructions has stopped the run by
  then.
* `Machine.runOnUntil_cancelled_within`: a run can be cancelled wherever an instruction of it waits.
* `Machine.cancelled_between_steps`: all of this, for a run from its start.
-/

namespace BotScript

open Cast

variable {σ : Type} {n : Nat} {α : Type}

/-! ### Alarms -/

/-- An alarm has had a reason to cancel an activity by a time: a time has come, or it counts small
steps, or all lines were written. -/
def Alarm.Cancels (alarm : Alarm) (now : Nat) : Prop :=
  ∃ cue, alarm.cancel = some cue ∧
    ((∃ t, cue.time = some t ∧ t ≤ now) ∨ (∃ moves, cue.moves = some moves) ∨ cue.lines = some 0)

/-- An alarm that does not cancel rings as if it could not. -/
theorem Alarm.bell_cancel_or_eq (alarm : Alarm) (till : Option Nat) :
    (∃ cue t, alarm.cancel = some cue ∧ cue.time = some t ∧ alarm.bell till = .cancel t) ∨
      alarm.bell till = Alarm.bell ⟨none, alarm.expire⟩ till := by
  obtain ⟨cancel, expire⟩ := alarm
  cases cancel with
  | none => exact .inr rfl
  | some cue =>
    obtain ⟨time, moves, lines⟩ := cue
    cases time with
    | none => exact .inr rfl
    | some t =>
      cases expire with
      | none =>
        by_cases ht : till.all (t ≤ ·) = true
        · exact .inl ⟨_, t, rfl, rfl, if_pos ht⟩
        · exact .inr (if_neg ht)
      | some e =>
        by_cases ht : t ≤ e ∧ till.all (t ≤ ·) = true
        · exact .inl ⟨_, t, rfl, rfl, if_pos ht⟩
        · exact .inr (if_neg ht)

theorem Alarm.Cancels.of_moved {alarm : Alarm} {now : Nat} (h : alarm.moved.Cancels now) :
    alarm.Cancels now := by
  obtain ⟨cancel, expire⟩ := alarm
  cases cancel with
  | none =>
    obtain ⟨cue, hcue, -⟩ := h
    cases hcue
  | some cue =>
    obtain ⟨later, hlater, hreason⟩ := h
    obtain rfl := Option.some.inj hlater
    rcases hreason with htime | ⟨moves, hmoves⟩ | hlines
    · exact ⟨cue, rfl, .inl htime⟩
    · obtain ⟨before, hbefore, -⟩ := Option.map_eq_some_iff.mp hmoves
      exact ⟨cue, rfl, .inr (.inl ⟨before, hbefore⟩)⟩
    · exact ⟨cue, rfl, .inr (.inr hlines)⟩

theorem Alarm.cancels_of_hasRung {alarm : Alarm} (h : alarm.hasRung = true) (now : Nat) :
    alarm.Cancels now := by
  obtain ⟨cancel, expire⟩ := alarm
  cases cancel with
  | none => cases h
  | some cue =>
    simp only [hasRung, Option.any_some, Bool.or_eq_true, beq_iff_eq] at h
    exact ⟨cue, rfl, .inr (h.imp_left fun hmoves => ⟨0, hmoves⟩)⟩

/-- A run of an activity is cancelled for a reason, or is the run that cannot be cancelled. -/
theorem Running.run_cancelled_or_eq [ClientModel σ] (crew : Crew n) (alarm : Alarm) (fuel : Nat)
    (w : World σ n) (r : Running n α) :
    (∃ w', alarm.Cancels w'.now ∧ r.run crew alarm fuel w = .cancelled w') ∨
      r.run crew alarm fuel w = r.run crew ⟨none, alarm.expire⟩ fuel w := by
  induction fuel generalizing alarm w r with
  | zero => exact .inr rfl
  | succ fuel ih =>
    have hlater : ∀ (w₁ : World σ n) (r₁ : Running n α),
        (∃ w', alarm.Cancels w'.now ∧ r₁.run crew alarm.moved fuel w₁ = .cancelled w') ∨
          r₁.run crew alarm.moved fuel w₁ = r₁.run crew ⟨none, alarm.expire⟩ fuel w₁ :=
      fun w₁ r₁ => (ih alarm.moved w₁ r₁).imp_left fun ⟨w', hcancels, hrun⟩ =>
        ⟨w', hcancels.of_moved, hrun⟩
    have hfree : r.run crew ⟨none, alarm.expire⟩ (fuel + 1) w = _ := run_eq crew fuel w r
    rw [hfree, run]
    split
    · rename_i hrung
      have hrung : alarm.hasRung = true := (Bool.and_eq_true_iff.mp hrung).2
      exact .inl ⟨_, Alarm.cancels_of_hasRung hrung _, rfl⟩
    · cases r.advance crew w with
      | moved w₁ r₁ => exact hlater w₁ r₁
      | ended w₁ result => exact .inr rfl
      | waits till =>
        dsimp only
        rcases alarm.bell_cancel_or_eq till with ⟨cue, t, hcue, ht, hbell⟩ | hbell
        · refine .inl ⟨r.drop (w.atTime t), ⟨cue, hcue, .inl ⟨t, ht, ?_⟩⟩, by rw [hbell]⟩
          rw [drop_now, World.atTime_now]
          exact Nat.le_max_right _ _
        · rw [hbell]
          cases Alarm.bell ⟨none, alarm.expire⟩ till with
          | wake t => exact hlater (w.atTime t) r.wake
          | cancel t => exact .inr rfl
          | expire t => exact .inr rfl
          | never => exact .inr rfl

/-- The activity is cancelled after some of its small steps. -/
def Cue.after (moves : Nat) : Cue := ⟨none, some moves, none⟩

theorem Running.tick_of_after [ClientModel σ] {crew : Crew n} {expire : Option Nat} {w : World σ n}
    {r : Running n α} (moves : Nat) :
    r.tick crew ⟨some (.after (moves + 1)), expire⟩ w = r.tick crew ⟨none, expire⟩ w := rfl

/-- What an activity comes to, it comes to as well if it is cancelled later. -/
theorem Running.Comes.run_after [ClientModel σ] {crew : Crew n} {expire : Option Nat}
    {w w' : World σ n} {r r' : Running n α} (h : Comes crew ⟨none, expire⟩ w r w' r') :
    ∃ count, ∀ moves fuel,
      r.run crew ⟨some (.after (moves + count)), expire⟩ (fuel + count) w =
        r'.run crew ⟨some (.after moves), expire⟩ fuel w' := by
  induction h with
  | start => exact ⟨0, fun _ _ => rfl⟩
  | @tick w₁ w₂ r₁ r₂ _ htick ih =>
    obtain ⟨count, hrun⟩ := ih
    refine ⟨count + 1, fun moves fuel => ?_⟩
    rw [← Nat.succ_add_eq_add_succ, ← Nat.succ_add_eq_add_succ, hrun]
    exact run_succ_on_moved ((tick_of_after moves).trans htick) fuel

/-- An activity can be cancelled wherever it waits. -/
theorem Running.Comes.exists_cancelled [ClientModel σ] {crew : Crew n} {expire : Option Nat}
    {w w' : World σ n} {r r' : Running n α} (h : Comes crew ⟨none, expire⟩ w r w' r')
    (hwaits : r'.waits = true) :
    ∃ moves, ∀ fuel, moves < fuel →
      r.run crew ⟨some (.after moves), expire⟩ fuel w = .cancelled (r'.drop w') := by
  obtain ⟨count, hrun⟩ := h.run_after
  refine ⟨count, fun fuel hfuel => ?_⟩
  obtain ⟨rest, rfl⟩ := Nat.exists_eq_add_of_lt hfuel
  have hstop : r'.tick crew ⟨some (.after 0), expire⟩ w' = .halt (.cancelled (r'.drop w')) := by
    rw [Running.tick, hwaits]
    rfl
  have hfirst := hrun 0 (rest + 1)
  rw [Nat.zero_add, run_succ_halt hstop] at hfirst
  rw [← hfirst]
  congr 1
  omega

/-- Writing lines adds them to the log. -/
theorem World.lines_log (w : World σ n) (lines : List String) :
    (w.log lines).lines = w.lines ++ lines := by
  have hline : (lines.map Event.line).filterMap (Event.line? (n := n)) = lines := by
    rw [List.filterMap_map]
    exact List.filterMap_some
  rw [World.lines_eq, World.lines_eq, history, log_journal, List.reverse_append,
    List.reverse_reverse, List.filterMap_append, hline, history]

namespace Token

variable {token : Token} {steps lines : Nat} {expire : Option Nat}

/-- The token has rung by a time while an instruction was under way, after some others. -/
def ringsWithin (token : Token) (steps now : Nat) : Prop :=
  (∃ t, token.time = some t ∧ t ≤ now) ∨ ∃ moves, token.within = some (steps, moves)

/-- An instruction is cancelled after some small steps if the token says so of this instruction. -/
theorem cue_moves_eq_some (token : Token) {moves : Nat} :
    (token.cue steps lines).moves = some moves ↔ token.within = some (steps, moves) := by
  obtain ⟨_, _, _, _ | ⟨k, count⟩⟩ := token
  · simp [cue]
  · by_cases hk : k = steps <;> simp [cue, hk]

/-- What cancels an instruction is the token, if it had not rung before. -/
theorem ringsWithin_of_cancels (token : Token) {before now : Nat}
    (hrings : token.rings steps lines before = false)
    (h : Alarm.Cancels ⟨some (token.cue steps lines), expire⟩ now) :
    token.ringsWithin steps now := by
  obtain ⟨cue, hcue, hreason⟩ := h
  obtain rfl := Option.some.inj hcue
  rcases hreason with htime | ⟨moves, hmoves⟩ | hlines
  · exact .inl htime
  · exact .inr ⟨moves, (cue_moves_eq_some token).mp hmoves⟩
  · obtain ⟨most, hmost, hleft⟩ := Option.map_eq_some_iff.mp hlines
    have hover : most ≤ lines := by omega
    simp [rings, hmost, hover] at hrings

end Token

namespace Machine

variable [ClientModel σ] {crew : Crew n} {every : Nat} {alarm : Alarm} {token : Token}
  {expire : Option Nat} {fuel steps lines k : Nat} {w w' w₁ : World σ n} {m m₁ : Machine}
  {r : StepResult}

/-! ### Steps -/

/-- A step is cancelled for a reason and then leaves no trace but calls, or is the step that cannot
be cancelled. -/
theorem step_cancelled_or_eq (crew : Crew n) (every : Nat) (alarm : Alarm) (fuel : Nat)
    (w : World σ n) (m : Machine) :
    (∃ w', alarm.Cancels w'.now ∧ w'.Follows w ∧
        m.step crew every alarm fuel w = (.cancelled, w', m)) ∨
      m.step crew every alarm fuel w = m.step crew every ⟨none, alarm.expire⟩ fuel w := by
  cases hrunning : m.running with
  | false =>
    rw [step_of_not_running hrunning, step_of_not_running hrunning]
    exact .inr rfl
  | true =>
    cases hi : m.instruction? with
    | none =>
      rw [step_of_end hrunning hi, step_of_end hrunning hi]
      exact .inr rfl
    | some i =>
      rw [step_of_instruction hrunning hi, step_of_instruction hrunning hi, Activity.run,
        Activity.run]
      have hfollows := Running.run_follows crew alarm fuel w (.ofActivity (m.plan crew every i))
      rcases Running.run_cancelled_or_eq crew alarm fuel w (.ofActivity (m.plan crew every i)) with
        ⟨w', hcancels, hrun⟩ | hrun
      · rw [hrun] at hfollows
        exact .inl ⟨w', hcancels, hfollows, by rw [hrun]; rfl⟩
      · exact .inr (by rw [hrun])

/-- How many lines a step has written. -/
def StepResult.written : StepResult → Nat
  | goesOn lines | done lines => lines
  | _ => 0

/-- A complete step writes as many lines as it says. -/
theorem lines_of_step (hstep : m.step crew every alarm fuel w = (r, w₁, m₁))
    (hr : r.isDone = true) :
    w₁.lines.length = w.lines.length + r.written := by
  cases hrunning : m.running with
  | false =>
    rw [step_of_not_running hrunning] at hstep
    cases hstep
    rfl
  | true =>
    cases hi : m.instruction? with
    | none =>
      rw [step_of_end hrunning hi] at hstep
      cases hstep
      rfl
    | some i =>
      rw [step_of_instruction hrunning hi, Activity.run] at hstep
      have hfollows := Running.run_follows crew alarm fuel w (.ofActivity (m.plan crew every i))
      cases hrun : Running.run crew alarm fuel w (.ofActivity (m.plan crew every i)) with
      | ended w₂ result =>
        rw [hrun] at hstep hfollows
        cases result with
        | ok effect =>
          simp only [conclude, Prod.mk.injEq] at hstep
          obtain ⟨hresult, rfl, -⟩ := hstep
          have hwritten : r.written = effect.lines.length := by
            rw [← hresult]
            split <;> rfl
          have hlines := hfollows.lines_eq
          simp only [Outcome.world] at hlines
          rw [hwritten, World.lines_log, List.length_append, hlines]
        | error f =>
          cases hstep
          cases hr
      | cancelled w₂ =>
        rw [hrun] at hstep
        cases hstep
        cases hr
      | expired w₂ =>
        rw [hrun] at hstep
        cases hstep
        cases hr
      | never w₂ =>
        rw [hrun] at hstep
        cases hstep
        cases hr
      | outOfFuel w₂ =>
        rw [hrun] at hstep
        cases hstep
        cases hr

theorem Steps.lines_le {m' : Machine} (h : Steps crew every expire k w m w' m') :
    w.lines.length ≤ w'.lines.length := by
  induction h with
  | refl w m => exact Nat.le_refl _
  | next _ hstep hr _ ih =>
    have hfirst := lines_of_step hstep hr
    omega

/-! ### Runs with a token -/

theorem runOnUntil_of_not_running (h : m.running = false) :
    m.runOnUntil crew every token expire (fuel + 1) steps lines w = (.done, w, m) := by
  simp [runOnUntil, h]

theorem runOnUntil_of_rings (hrunning : m.running = true)
    (hrings : token.rings steps lines w.now = true) :
    m.runOnUntil crew every token expire (fuel + 1) steps lines w = (.done, w, m.stop) := by
  simp [runOnUntil, hrunning, hrings]

/-- A run goes on after a step that carries out its instruction. -/
theorem runOnUntil_of_isDone (hrunning : m.running = true)
    (hrings : token.rings steps lines w.now = false)
    (hstep : m.step crew every ⟨some (token.cue steps lines), expire⟩ fuel w = (r, w₁, m₁))
    (hr : r.isDone = true) :
    m.runOnUntil crew every token expire (fuel + 1) steps lines w =
      m₁.runOnUntil crew every token expire fuel (steps + 1) (lines + r.written) w₁ := by
  rw [runOnUntil, if_pos hrunning, hrings, hstep]
  cases r with
  | goesOn more => rfl
  | done more => rfl
  | _ => cases hr

/-- A run ends with any other step. -/
theorem runOnUntil_of_not_isDone (hrunning : m.running = true)
    (hrings : token.rings steps lines w.now = false)
    (hstep : m.step crew every ⟨some (token.cue steps lines), expire⟩ fuel w = (r, w₁, m₁))
    (hr : r.isDone = false) :
    m.runOnUntil crew every token expire (fuel + 1) steps lines w = m₁.halt w₁ r := by
  rw [runOnUntil, if_pos hrunning, hrings, hstep]
  cases r with
  | goesOn more => cases hr
  | done more => cases hr
  | _ => rfl

/-- A run, before which some instructions were done and some lines written, is cancelled after `k`
complete steps of the run that is not cancelled: before the next instruction, or within it. The
machine is left as it is after those steps, only stopped, and so is the log; and the token has rung
by then. -/
def CancelledAfter (crew : Crew n) (every : Nat) (token : Token) (expire : Option Nat)
    (steps lines k : Nat) (w : World σ n) (m : Machine) (result : RunResult × World σ n × Machine) :
    Prop :=
  ∃ w₁ m₁ w' written, Steps crew every expire k w m w₁ m₁ ∧ m₁.running = true ∧
    result = (.done, w', m₁.stop) ∧ w'.lines = w₁.lines ∧
    w₁.lines.length = w.lines.length + written ∧
    (w' = w₁ ∧ token.rings (steps + k) (lines + written) w₁.now = true ∨
      token.ringsWithin (steps + k) w'.now ∧ ∃ fuel,
        m₁.step crew every ⟨some (token.cue (steps + k) (lines + written)), expire⟩ fuel w₁ =
          (.cancelled, w', m₁))

theorem cancelledAfter_zero (hrunning : m.running = true)
    (hrings : token.rings steps lines w.now = true) :
    CancelledAfter crew every token expire steps lines 0 w m (.done, w, m.stop) :=
  ⟨w, m, w, 0, .refl w m, hrunning, rfl, rfl, rfl, .inl ⟨rfl, hrings⟩⟩

/-- A step that is cancelled is cancelled by the token. -/
theorem cancelledAfter_step (hrunning : m.running = true)
    (hrings : token.rings steps lines w.now = false)
    (hcancels : Alarm.Cancels ⟨some (token.cue steps lines), expire⟩ w'.now)
    (hfollows : w'.Follows w)
    (hstep : m.step crew every ⟨some (token.cue steps lines), expire⟩ fuel w =
      (.cancelled, w', m)) :
    CancelledAfter crew every token expire steps lines 0 w m (.done, w', m.stop) :=
  ⟨w, m, w', 0, .refl w m, hrunning, rfl, hfollows.lines_eq, rfl,
    .inr ⟨token.ringsWithin_of_cancels hrings hcancels, fuel, hstep⟩⟩

/-- A run that is cancelled after its first step was complete. -/
theorem CancelledAfter.after_step {result : RunResult × World σ n × Machine} {last : Nat}
    (hrunning : m.running = true) (hstep : m.step crew every ⟨none, expire⟩ last w = (r, w₁, m₁))
    (hr : r.isDone = true)
    (h : CancelledAfter crew every token expire (steps + 1) (lines + r.written) k w₁ m₁ result) :
    CancelledAfter crew every token expire steps lines (k + 1) w m result := by
  obtain ⟨w₂, m₂, w', written, hsteps, hrunning₂, hresult, hlines, hcount, hrings⟩ := h
  have hfirst := lines_of_step hstep hr
  refine ⟨w₂, m₂, w', r.written + written, .next hrunning hstep hr hsteps, hrunning₂, hresult,
    hlines, by omega, ?_⟩
  have hsteps' : steps + (k + 1) = steps + 1 + k := by omega
  rwa [hsteps', ← Nat.add_assoc lines]

/-- A run with a token is cancelled after some complete steps, or is the run without a token. -/
theorem runOnUntil_cancelled_or_eq (crew : Crew n) (every : Nat) (token : Token)
    (expire : Option Nat) (fuel steps lines : Nat) (w : World σ n) (m : Machine) :
    (∃ k, CancelledAfter crew every token expire steps lines k w m
        (m.runOnUntil crew every token expire fuel steps lines w)) ∨
      m.runOnUntil crew every token expire fuel steps lines w =
        m.runOn crew every expire fuel w := by
  induction fuel generalizing steps lines w m with
  | zero => exact .inr rfl
  | succ fuel ih =>
    cases hrings : token.rings steps lines w.now with
    | true =>
      cases hrunning : m.running with
      | false =>
        rw [runOnUntil_of_not_running hrunning, runOn_of_not_running hrunning]
        exact .inr rfl
      | true =>
        rw [runOnUntil_of_rings hrunning hrings]
        exact .inl ⟨0, cancelledAfter_zero hrunning hrings⟩
    | false =>
      cases begins crew every expire fuel w m with
      | idle hidle =>
        rw [runOnUntil_of_not_running hidle, runOn_of_not_running hidle]
        exact .inr rfl
      | @goesOn r w₁ m₁ hrunning hstep hr =>
        rcases step_cancelled_or_eq crew every ⟨some (token.cue steps lines), expire⟩ fuel w m with
          ⟨w', hcancels, hfollows, hcancelled⟩ | hsame
        · rw [runOnUntil_of_not_isDone hrunning hrings hcancelled rfl]
          exact .inl ⟨0, cancelledAfter_step hrunning hrings hcancels hfollows hcancelled⟩
        · rw [runOnUntil_of_isDone hrunning hrings (hsame.trans hstep) hr,
            runOn_of_isDone hrunning hstep hr]
          refine (ih (steps + 1) (lines + r.written) w₁ m₁).imp_left ?_
          rintro ⟨k, hk⟩
          exact ⟨k + 1, hk.after_step hrunning hstep hr⟩
      | halts hrunning hstep hr =>
        rcases step_cancelled_or_eq crew every ⟨some (token.cue steps lines), expire⟩ fuel w m with
          ⟨w', hcancels, hfollows, hcancelled⟩ | hsame
        · rw [runOnUntil_of_not_isDone hrunning hrings hcancelled rfl]
          exact .inl ⟨0, cancelledAfter_step hrunning hrings hcancels hfollows hcancelled⟩
        · rw [runOnUntil_of_not_isDone hrunning hrings (hsame.trans hstep) hr,
            runOn_of_not_isDone hrunning hstep hr]
          exact .inr rfl

/-- A token that rings after some complete steps has stopped the run by then. -/
theorem runOnUntil_stops (hsteps : Steps crew every expire k w m w₁ m₁)
    (hrunning : m₁.running = true) {written : Nat}
    (hcount : w₁.lines.length = w.lines.length + written)
    (hrings : token.rings (steps + k) (lines + written) w₁.now = true) :
    ∃ enough, ∀ fuel, enough ≤ fuel → ∃ j, j ≤ k ∧
      CancelledAfter crew every token expire steps lines j w m
        (m.runOnUntil crew every token expire fuel steps lines w) := by
  induction hsteps generalizing steps lines written with
  | refl w m =>
    refine ⟨1, fun fuel hfuel => ⟨0, Nat.le_refl 0, ?_⟩⟩
    obtain ⟨fuel, rfl⟩ := Nat.exists_eq_add_of_le' hfuel
    obtain rfl : written = 0 := by omega
    have hnow : token.rings steps lines w.now = true := hrings
    rw [runOnUntil_of_rings hrunning hnow]
    exact cancelledAfter_zero hrunning hnow
  | @next k need r w w₁ w₂ m m₁ m₂ hfirst hstep hr hrest ih =>
    have hlines := lines_of_step hstep hr
    have hgrows := hrest.lines_le
    have hcount' : w₂.lines.length = w₁.lines.length + (written - r.written) := by omega
    have hrings' : token.rings (steps + 1 + k) (lines + r.written + (written - r.written))
        w₂.now = true := by
      rwa [Nat.add_right_comm, Nat.add_assoc lines, Nat.add_sub_of_le (by omega)]
    obtain ⟨enough, henough⟩ := ih hrunning hcount' hrings'
    refine ⟨max enough need + 1, fun fuel hfuel => ?_⟩
    obtain ⟨fuel, rfl⟩ := Nat.exists_eq_add_of_le' (Nat.one_le_of_lt hfuel)
    -- Either the token has rung before, or the first step is the one that is not cancelled.
    cases hearly : token.rings steps lines w.now with
    | true =>
      rw [runOnUntil_of_rings hfirst hearly]
      exact ⟨0, Nat.zero_le _, cancelledAfter_zero hfirst hearly⟩
    | false =>
      rcases step_cancelled_or_eq crew every ⟨some (token.cue steps lines), expire⟩ fuel w m with
        ⟨w', hcancels, hfollows, hcancelled⟩ | hsame
      · rw [runOnUntil_of_not_isDone hfirst hearly hcancelled rfl]
        exact ⟨0, Nat.zero_le _, cancelledAfter_step hfirst hearly hcancels hfollows hcancelled⟩
      · have hmore := step_eq_of_le (show need ≤ fuel by omega) hstep (StepResult.ne_outOfFuel hr)
        rw [runOnUntil_of_isDone hfirst hearly (hsame.trans hmore) hr]
        obtain ⟨j, hj, hcancelled⟩ := henough fuel (by omega)
        exact ⟨j + 1, by omega, hcancelled.after_step hfirst hstep hr⟩

/-- A token that rings within an instruction is of no account before. -/
theorem step_before_within (hlater : steps ≠ k) (lines moves fuel : Nat) (w : World σ n)
    (m : Machine) :
    m.step crew every ⟨some (Token.cue ⟨none, none, none, some (k, moves)⟩ steps lines), expire⟩
        fuel w =
      m.step crew every ⟨none, expire⟩ fuel w := by
  refine (step_cancelled_or_eq crew every _ fuel w m).resolve_left ?_
  rintro ⟨w', hcancels, -⟩
  obtain ⟨cue, hcue, hreason⟩ := hcancels
  obtain rfl := Option.some.inj hcue
  rcases hreason with ⟨t, ht, -⟩ | ⟨count, hcount⟩ | hlines
  · cases ht
  · cases (Token.cue_moves_eq_some _).mp hcount
    exact hlater rfl
  · cases hlines

/-- Wherever the instruction after some complete steps waits, a token can cancel the run. -/
theorem runOnUntil_cancelled_within (hsteps : Steps crew every expire k w m w₁ m₁)
    (hrunning : m₁.running = true) {i : Instruction} (hi : m₁.instruction? = some i)
    {r : Running n Effect}
    (hcomes : Running.Comes crew ⟨none, expire⟩ w₁ (.ofActivity (m₁.plan crew every i)) w' r)
    (hwaits : r.waits = true) :
    ∃ moves enough, ∀ fuel, enough ≤ fuel → ∀ steps lines,
      m.runOnUntil crew every ⟨none, none, none, some (steps + k, moves)⟩ expire fuel
        steps lines w = (.done, r.drop w', m₁.stop) := by
  obtain ⟨moves, hcut⟩ := hcomes.exists_cancelled hwaits
  have hquiet : ∀ steps lines k now,
      Token.rings ⟨none, none, none, some (steps + k, moves)⟩ steps lines now = false := by
    intro steps lines k now
    simp [Token.rings]
  refine ⟨moves, ?_⟩
  induction hsteps with
  | refl w m =>
    refine ⟨moves + 2, fun fuel hfuel steps lines => ?_⟩
    obtain ⟨fuel, rfl⟩ := Nat.exists_eq_add_of_le' (Nat.one_le_of_lt hfuel)
    have hcue : Token.cue ⟨none, none, none, some (steps + 0, moves)⟩ steps lines =
        .after moves := by
      simp [Token.cue, Cue.after]
    have hstep : m.step crew every
        ⟨some (Token.cue ⟨none, none, none, some (steps + 0, moves)⟩ steps lines), expire⟩ fuel w =
          (.cancelled, r.drop w', m) := by
      rw [hcue, step_of_instruction hrunning hi, Activity.run, hcut fuel (by omega)]
      rfl
    rw [runOnUntil_of_not_isDone hrunning (hquiet steps lines 0 w.now) hstep rfl]
    rfl
  | @next k need r w w₁ w₂ m m₁ m₂ hfirst hstep hr _ ih =>
    obtain ⟨enough, henough⟩ := ih hrunning hi hcomes hcut
    refine ⟨max enough need + 1, fun fuel hfuel steps lines => ?_⟩
    obtain ⟨fuel, rfl⟩ := Nat.exists_eq_add_of_le' (Nat.one_le_of_lt hfuel)
    have hmore := step_eq_of_le (show need ≤ fuel by omega) hstep (StepResult.ne_outOfFuel hr)
    have hother : steps ≠ steps + (k + 1) := by omega
    have hbefore := (step_before_within hother lines moves fuel w m).trans hmore
    rw [runOnUntil_of_isDone hfirst (hquiet steps lines (k + 1) w.now) hbefore hr,
      ← Nat.succ_add_eq_add_succ]
    exact henough fuel (by omega) (steps + 1) (lines + r.written)

/-- A run with a token is the run without one, or is cancelled after some complete steps of it; then
the machine and the log are as after those steps, with the machine stopped. A token that rings
between two instructions has stopped the run by then; and wherever an instruction waits, a token can
cancel the run. With the token that never rings the run is the one without a token. -/
theorem cancelled_between_steps (crew : Crew n) (every : Nat) (expire : Option Nat) (w : World σ n)
    (m : Machine) :
    (∀ token fuel,
      (∃ k, CancelledAfter crew every token expire 0 0 k w m.start
          (m.runUntilCancelled crew every token expire fuel w)) ∨
        m.runUntilCancelled crew every token expire fuel w = m.run crew every expire fuel w) ∧
    (∀ token k w₁ m₁ written, Steps crew every expire k w m.start w₁ m₁ → m₁.running = true →
      w₁.lines.length = w.lines.length + written → token.rings k written w₁.now = true →
      ∃ enough, ∀ fuel, enough ≤ fuel → ∃ j, j ≤ k ∧
        CancelledAfter crew every token expire 0 0 j w m.start
          (m.runUntilCancelled crew every token expire fuel w)) ∧
    (∀ k w₁ m₁ i w' r, Steps crew every expire k w m.start w₁ m₁ → m₁.running = true →
      m₁.instruction? = some i →
      Running.Comes crew ⟨none, expire⟩ w₁ (.ofActivity (m₁.plan crew every i)) w' r →
      r.waits = true →
      ∃ token enough, ∀ fuel, enough ≤ fuel →
        m.runUntilCancelled crew every token expire fuel w = (.done, r.drop w', m₁.stop)) ∧
    ∀ fuel, m.runUntilCancelled crew every .never expire fuel w =
      m.run crew every expire fuel w := by
  refine ⟨fun token fuel => runOnUntil_cancelled_or_eq crew every token expire fuel 0 0 w m.start,
    ?_, ?_, ?_⟩
  · intro token k w₁ m₁ written hsteps hrunning hcount hrings
    refine runOnUntil_stops hsteps hrunning hcount ?_
    rwa [Nat.zero_add, Nat.zero_add]
  · intro k w₁ m₁ i w' r hsteps hrunning hi hcomes hwaits
    obtain ⟨moves, enough, hcut⟩ := runOnUntil_cancelled_within hsteps hrunning hi hcomes hwaits
    exact ⟨_, enough, fun fuel hfuel => hcut fuel hfuel 0 0⟩
  · intro fuel
    rcases runOnUntil_cancelled_or_eq crew every .never expire fuel 0 0 w m.start with
      ⟨k, _, _, _, _, _, _, _, _, _, ⟨-, hrings⟩ | ⟨hrings, -⟩⟩ | hsame
    · cases hrings
    · rcases hrings with ⟨t, ht, -⟩ | ⟨moves, hmoves⟩
      · cases ht
      · cases hmoves
    · exact hsame

/-- A client waits for a battle, after an instruction that does nothing. -/
def waiting : Program := ⟨[.nop, .act .all (.waitFor ⟨.battle, false⟩)]⟩

/-- A client whose first answer is no. -/
def reluctant : World DryRun 1 := .initial #v[⟨1, 0, 0⟩]

/-- The run of the client that waits, with a token. -/
def waitingRun (token : Token) : RunResult × World DryRun 1 × Machine :=
  (idle.load waiting).runUntilCancelled solo 100 token none 20 reluctant

/-- The client rests after its first answer; there the run is cancelled, after one complete step. It
can be cancelled as well while the client is asked, which takes no time. -/
theorem waiting_cancelled :
    (waitingRun ⟨none, some 50, none, none⟩).2.2 = ⟨waiting, 1, [], [], [], false, false⟩ ∧
      (waitingRun ⟨none, some 50, none, none⟩).2.1.now = 50 ∧
      (waitingRun ⟨none, none, none, some (1, 2)⟩).2.2 = ⟨waiting, 1, [], [], [], false, false⟩ ∧
      (waitingRun ⟨none, none, none, some (1, 2)⟩).2.1.history.map (Event.render solo) =
        ["0 p1 battle >", "0 p1 battle x"] ∧
      (waitingRun .never).2.2.ip = 2 ∧
      ∃ k, CancelledAfter solo 100 ⟨none, some 50, none, none⟩ none 0 0 k reluctant
        (idle.load waiting).start (waitingRun ⟨none, some 50, none, none⟩) := by
  have hcancelled : (waitingRun ⟨none, some 50, none, none⟩).2.2.ip = 1 := by rfl
  have hend : (waitingRun .never).2.2.ip = 2 := by rfl
  refine ⟨by rfl, by rfl, by rfl, by rfl, hend, ?_⟩
  obtain ⟨hrun, -, -, hnever⟩ :=
    cancelled_between_steps solo 100 none reluctant (idle.load waiting)
  refine (hrun ⟨none, some 50, none, none⟩ 20).resolve_right fun hsame => ?_
  -- The run that is not cancelled gets to the end of the program.
  rw [waitingRun, hsame, ← hnever] at hcancelled
  exact absurd (hcancelled.symm.trans hend) (by decide)

end Machine

end BotScript
