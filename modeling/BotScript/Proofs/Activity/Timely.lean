import BotScript.Proofs.Activity.Alone
import BotScript.Proofs.Activity.Tidy

/-!
# Getting past any time

A run of a group can be followed to any time only if no member goes on for ever at one instant. A
chain that polls without rest might. The chains of instructions rest, so by themselves they come to
their end or to a wait that lasts beyond the time; and so does whatever comes to its end at all.

## Main definitions

* `Member.Timely`: by itself, a member comes to its end or has to wait past a time.

## Main results

* `Member.Plays.lt_of_isFinal`: how much a member can do by itself up to a time.
* `Member.EndsAlone.timely`, `Member.timely_ready`, `Member.IsStarted.timely`: members
  that are timely.
-/

namespace BotScript

open World

variable {σ : Type} {n : Nat} {κ : AnswerKind} {α : Type} [ClientModel σ]

/-- A run that comes to its end does so as well if it may expire before. -/
theorem Running.isFinal_expire {crew : Crew n} {fuel : Nat} {w : World σ n} {r : Running n α}
    (T : Nat) (h : (r.run crew ⟨none, none⟩ fuel w).IsFinal) :
    (r.run crew ⟨none, some T⟩ fuel w).IsFinal := by
  induction fuel generalizing w r with
  | zero => exact h
  | succ fuel ih =>
    rw [run_eq] at h ⊢
    cases hadv : r.advance crew w with
    | moved w₁ r₁ =>
      rw [hadv] at h
      exact ih h
    | ended w₁ result => trivial
    | waits till =>
      rw [hadv] at h
      cases till with
      | none => trivial
      | some t =>
        by_cases ht : t ≤ T
        · simp only [Member.bell_expire ht]
          exact ih h
        · have hbell : Alarm.bell ⟨none, some T⟩ (some t) = .expire T := if_neg ht
          simp only [hbell]
          trivial

namespace Member

variable {crew : Crew n} {T k t : Nat} {w v : World σ n} {m m' : Member n κ}
  {r : Except Fault κ.Answer}

/-- By itself, a member comes to its end or has to wait past a time: up to then, it does
not go on for ever. -/
def Timely (crew : Crew n) (T : Nat) (w : World σ n) (m : Member n κ) : Prop :=
  ∃ fuel, (m.alone.run crew ⟨none, some T⟩ fuel w).IsFinal

/-- How much a member can do by itself up to a time. -/
theorem Plays.lt_of_isFinal (h : Plays crew w m k v m') {fuel : Nat} (hle : v.now ≤ T)
    (hfinal : (m.alone.run crew ⟨none, some T⟩ fuel w).IsFinal) : k < fuel := by
  refine Nat.lt_of_not_le fun hfuel => ?_
  have hsame := Running.run_eq_of_isFinal hfuel hfinal
  have hrun := h.run_add (fun _ hs => bell_expire (Nat.le_trans hs hle)) 0
  rw [Nat.zero_add] at hrun
  rw [← hsame, hrun] at hfinal
  exact hfinal

/-- A member that comes to its end is timely. -/
theorem EndsAlone.timely (h : EndsAlone crew w m t r) : Timely crew T w m := by
  obtain ⟨fuel, w', hrun, -⟩ := h
  exact ⟨fuel, Running.isFinal_expire T (by rw [hrun]; trivial)⟩

theorem timely_of_ended (h : m.Ended r) : Timely crew T w m :=
  ⟨2, by rw [run_alone_of_ended h 0]; trivial⟩

theorem timely_of_canMove (hmove : m.canMove crew w = true)
    (h : Timely crew T (m.move crew w).2 (m.move crew w).1) : Timely crew T w m := by
  obtain ⟨fuel, hfinal⟩ := h
  refine ⟨fuel + 1, ?_⟩
  rwa [Running.run_succ_on (tick_alone_of_canMove hmove)]

/-- A member is timely if it is after the next thing it does, be it now or at a later time up to the
one given. -/
theorem timely_of_moves (hended : ∀ r, ¬ m.Ended r)
    (h : ∀ v : World σ n, w.now ≤ v.now → (v.now = w.now ∨ v.now ≤ T) → m.canMove crew v = true →
      Timely crew T (m.move crew v).2 (m.move crew v).1) : Timely crew T w m := by
  cases hmove : m.canMove crew w with
  | true => exact timely_of_canMove hmove (h w (Nat.le_refl _) (.inl rfl) hmove)
  | false =>
    by_cases hwake : ∃ s, m.wakeAt = some s ∧ s ≤ T
    · obtain ⟨s, hs, hle⟩ := hwake
      have hbefore : w.now < s := by
        rw [canMove_of_wakeAt hs] at hmove
        simpa using hmove
      have hnow : (w.atTime s).now = s := Nat.max_eq_right (Nat.le_of_lt hbefore)
      have hmove' : m.canMove crew (w.atTime s) = true := by
        rw [canMove_of_wakeAt hs, hnow]
        exact decide_eq_true (Nat.le_refl s)
      obtain ⟨fuel, hfinal⟩ := timely_of_canMove hmove'
        (h (w.atTime s) (Nat.le_max_left _ _) (.inr (hnow.symm ▸ hle)) hmove')
      refine ⟨fuel + 1, ?_⟩
      have htick : m.alone.tick crew ⟨none, some T⟩ w = .on (w.atTime s) m.alone := by
        rw [tick_alone_of_waits hmove hended, hs, bell_expire hle]
      rwa [Running.run_succ_on htick]
    · -- It waits past the time, or for ever.
      have hbell : Alarm.bell ⟨none, some T⟩ m.wakeAt = .expire T := by
        cases hs : m.wakeAt with
        | none => rfl
        | some s => exact if_neg fun hle => hwake ⟨s, hs, hle⟩
      have htick : m.alone.tick crew ⟨none, some T⟩ w = .halt (.expired (m.drop (w.atTime T))) := by
        rw [tick_alone_of_waits hmove hended, hbell]
      exact ⟨1, by rw [Running.run_succ_halt htick]; trivial⟩

/-- A member that waits for a call is timely if it is whatever the answer. -/
theorem timely_calling {ι : AnswerKind} {who : Fin n} {c : Call ι} {due : Option Nat}
    {result : Except ClientError ι.Answer} {next : ι.Answer → Chain κ}
    (h : ∀ (a : ι.Answer) (v : World σ n), w.now ≤ v.now → (v.now = w.now ∨ v.now ≤ T) →
      Timely crew T v ⟨who, .ready (next a)⟩) :
    Timely crew T w ⟨who, .calling c due result next⟩ := by
  refine timely_of_moves (fun r => (nomatch ·)) fun v hle hnow _ => ?_
  cases result with
  | ok a => exact h a (v.answered who c a) hle hnow
  | error e => exact timely_of_ended rfl

/-- An action that was started is timely. -/
theorem IsStarted.timely (h : m.IsStarted) : Timely crew T w m := by
  obtain ⟨who, stage⟩ := m
  obtain ⟨c, due, result, rfl⟩ := h
  exact timely_calling fun a v _ _ => timely_of_canMove rfl (timely_of_ended rfl)

/-- A chain that rests when it polls is timely. -/
theorem timely_ready {every : Nat} (hevery : 0 < every) {c : Chain κ} (hc : c.Regular every)
    (who : Fin n) (w : World σ n) : Timely crew T w ⟨who, .ready c⟩ := by
  induction c generalizing w with
  | done a => exact timely_of_canMove rfl (timely_of_ended rfl)
  | fail f => exact timely_of_canMove rfl (timely_of_ended rfl)
  | call c next ih =>
    refine timely_of_canMove rfl (timely_calling fun a v _ _ => ?_)
    exact ih a (hc a) v
  | rest ms next ih =>
    refine timely_of_canMove rfl (timely_of_moves (fun r => (nomatch ·)) fun v _ _ _ => ?_)
    exact ih hc v
  | focus next ih =>
    refine timely_of_canMove rfl (timely_of_moves (fun r => (nomatch ·)) fun v _ _ _ => ?_)
    exact ih hc v
  | poll c enough ms next ih =>
    obtain ⟨rfl, hnext⟩ := hc
    -- Each rest brings the time that is left down.
    generalize hleft : T + 1 - w.now = left
    induction left using Nat.strongRecOn generalizing w with
    | ind left ihleft =>
      refine timely_of_canMove rfl (timely_calling fun a v hle _ => ?_)
      have hle' : w.now ≤ v.now := hle
      dsimp only
      split
      · exact ih hnext v
      · refine timely_of_canMove rfl
          (timely_of_moves (fun r => (nomatch ·)) fun u _ hnow hmove => ?_)
        have hdue : v.now + ms ≤ u.now := of_decide_eq_true hmove
        have hlimit : u.now = v.now ∨ u.now ≤ T := hnow
        exact ihleft (T + 1 - u.now) (by omega) u rfl

end Member

end BotScript
