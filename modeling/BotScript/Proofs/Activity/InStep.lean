import BotScript.Proofs.Activity.Timely

/-!
# In step with a run by itself

In a world that it shares with others, a member of a group is where it would be by itself at the
same time, provided that nobody else touches its client. Then it does next what it would do by
itself, comes to the same end, and is stopped in the same state.

## Main definitions

* `Member.Rested`: a member is where it would be by itself, and has not done anything
  yet at this time.
* `Member.Active`: a member is where it would be by itself, and has done something at this time.
* `Member.InStep`: one of the two.

## Main results

* `Member.InStep.move`, `Member.InStep.wake`: a member stays in step when it goes on,
  and when time passes.
* `Member.InStep.endsAlone`, `Member.InStep.exists_wakeAt`: how the end by itself shows.
* `Member.InStep.stopsAlone`, `Member.Rested.stopsAlone`: how a member is stopped.
-/

namespace BotScript

open World

namespace Member

variable {σ : Type} {n : Nat} {κ : AnswerKind} [ClientModel σ] {crew : Crew n}
  {w₀ w w' : World σ n} {m₀ m : Member n κ} {k t : Nat} {r : Except Fault κ.Answer}

/-- By itself, the member has come here before this time, and cannot go on earlier. -/
def Rested (crew : Crew n) (w₀ : World σ n) (m₀ : Member n κ) (k : Nat) (w : World σ n)
    (m : Member n κ) : Prop :=
  ∃ v, Plays crew w₀ m₀ k v m ∧ Agrees crew m.who w v ∧ v.now < w.now ∧
    m.canMove crew v = false ∧ ∀ s, m.wakeAt = some s → w.now ≤ s

/-- By itself, the member has come here at this time. -/
def Active (crew : Crew n) (w₀ : World σ n) (m₀ : Member n κ) (k : Nat) (w : World σ n)
    (m : Member n κ) : Prop :=
  ∃ v, Plays crew w₀ m₀ k v m ∧ Agrees crew m.who w v ∧ v.now = w.now

/-- A member is where it would be by itself. -/
def InStep (crew : Crew n) (w₀ : World σ n) (m₀ : Member n κ) (k : Nat) (w : World σ n)
    (m : Member n κ) : Prop :=
  Rested crew w₀ m₀ k w m ∨ Active crew w₀ m₀ k w m

theorem active_start (crew : Crew n) (w : World σ n) (m : Member n κ) : Active crew w m 0 w m :=
  ⟨w, .start, .refl crew m.who w, rfl⟩

theorem InStep.who_eq (h : InStep crew w₀ m₀ k w m) : m.who = m₀.who := by
  rcases h with ⟨v, hplays, -⟩ | ⟨v, hplays, -⟩
  · exact hplays.who_eq
  · exact hplays.who_eq

/-! ### Staying in step -/

/-- What others do leaves a member where it is. -/
theorem Rested.congr (h : Rested crew w₀ m₀ k w m) (hagrees : Agrees crew m.who w' w)
    (hnow : w'.now = w.now) : Rested crew w₀ m₀ k w' m := by
  obtain ⟨v, hplays, hagrees', hlt, hcannot, hwake⟩ := h
  exact ⟨v, hplays, hagrees.trans hagrees', hnow ▸ hlt, hcannot, hnow ▸ hwake⟩

theorem Active.congr (h : Active crew w₀ m₀ k w m) (hagrees : Agrees crew m.who w' w)
    (hnow : w'.now = w.now) : Active crew w₀ m₀ k w' m := by
  obtain ⟨v, hplays, hagrees', hv⟩ := h
  exact ⟨v, hplays, hagrees.trans hagrees', hv.trans hnow.symm⟩

theorem InStep.congr (h : InStep crew w₀ m₀ k w m) (hagrees : Agrees crew m.who w' w)
    (hnow : w'.now = w.now) : InStep crew w₀ m₀ k w' m :=
  h.imp (·.congr hagrees hnow) (·.congr hagrees hnow)

/-- A member that has not done anything at this time, and can go on, waited for this very time. -/
theorem Rested.active (h : Rested crew w₀ m₀ k w m) (hmove : m.canMove crew w = true) :
    Active crew w₀ m₀ (k + 1) w m := by
  obtain ⟨v, hplays, hagrees, -, hcannot, hwake⟩ := h
  -- Nothing but the time can have changed for it, so the time it waited for has come.
  obtain ⟨s, hs, hlt, hle⟩ := due_of_canMove hagrees hcannot hmove
  have hnow : s = w.now := Nat.le_antisymm hle (hwake s hs)
  refine ⟨v.atTime s, hplays.wake hcannot hs, hagrees.trans (agrees_atTime crew m.who v s).symm, ?_⟩
  rw [atTime_now, hnow]
  exact Nat.max_eq_right (Nat.le_of_lt (hnow ▸ hlt))

theorem Active.move (h : Active crew w₀ m₀ k w m) (hmove : m.canMove crew w = true) :
    Active crew w₀ m₀ (k + 1) (m.move crew w).2 (m.move crew w).1 := by
  obtain ⟨v, hplays, hagrees, hnow⟩ := h
  have hmove' : m.canMove crew v = true := canMove_congr hagrees hnow.symm ▸ hmove
  obtain ⟨hmember, hworld⟩ := move_congr hagrees hnow.symm
  refine ⟨(m.move crew v).2, hmember ▸ hplays.move hmove', ?_, ?_⟩
  · rw [move_who]
    exact hworld
  · rw [move_now, move_now, hnow]

/-- A member that can go on does what it would do by itself. -/
theorem InStep.move (h : InStep crew w₀ m₀ k w m) (hmove : m.canMove crew w = true) :
    ∃ k', k < k' ∧ Active crew w₀ m₀ k' (m.move crew w).2 (m.move crew w).1 := by
  rcases h with hrested | hactive
  · exact ⟨k + 2, by omega, (hrested.active hmove).move hmove⟩
  · exact ⟨k + 1, by omega, hactive.move hmove⟩

/-- A member that cannot go on rests while time passes, up to the time it waits for. -/
theorem InStep.wake (h : InStep crew w₀ m₀ k w m) (hcannot : m.canMove crew w = false)
    (hlt : w.now < t) (hwake : ∀ s, m.wakeAt = some s → t ≤ s) :
    Rested crew w₀ m₀ k (w.atTime t) m := by
  have hnow : (w.atTime t).now = t := Nat.max_eq_right (Nat.le_of_lt hlt)
  rcases h with ⟨v, hplays, hagrees, hv, hcannot', -⟩ | ⟨v, hplays, hagrees, hv⟩
  · refine ⟨v, hplays, (agrees_atTime crew m.who w t).trans hagrees, ?_, hcannot',
      hnow.symm ▸ hwake⟩
    rw [hnow]
    exact Nat.lt_trans hv hlt
  · refine ⟨v, hplays, (agrees_atTime crew m.who w t).trans hagrees, ?_, ?_, hnow.symm ▸ hwake⟩
    · rwa [hnow, hv]
    · rwa [← canMove_congr hagrees hv.symm]

/-! ### The end -/

/-- How much a member that is in step can have done by itself up to a time. -/
theorem InStep.lt_of_isFinal (h : InStep crew w₀ m₀ k w m) {T fuel : Nat} (hle : w.now ≤ T)
    (hfinal : (m₀.alone.run crew ⟨none, some T⟩ fuel w₀).IsFinal) : k < fuel := by
  rcases h with ⟨v, hplays, -, hv, -⟩ | ⟨v, hplays, -, hv⟩
  · exact hplays.lt_of_isFinal (by omega) hfinal
  · exact hplays.lt_of_isFinal (by omega) hfinal

theorem Active.endsAlone (h : Active crew w₀ m₀ k w m) (hended : m.Ended r) :
    EndsAlone crew w₀ m₀ w.now r := by
  obtain ⟨v, hplays, -, hv⟩ := h
  exact hv ▸ hplays.endsAlone hended

theorem Rested.endsAlone (h : Rested crew w₀ m₀ k w m) (hended : m.Ended r) :
    ∃ t < w.now, EndsAlone crew w₀ m₀ t r := by
  obtain ⟨v, hplays, -, hv, -⟩ := h
  exact ⟨v.now, hv, hplays.endsAlone hended⟩

/-- A member that has ended would have ended by itself by this time. -/
theorem InStep.endsAlone (h : InStep crew w₀ m₀ k w m) (hended : m.Ended r) :
    ∃ t ≤ w.now, EndsAlone crew w₀ m₀ t r := by
  rcases h with hrested | hactive
  · obtain ⟨t, ht, halone⟩ := hrested.endsAlone hended
    exact ⟨t, Nat.le_of_lt ht, halone⟩
  · exact ⟨w.now, Nat.le_refl _, hactive.endsAlone hended⟩

/-- A member that has not ended, would end by itself, and cannot go on now waits for a
later time. -/
theorem InStep.exists_wakeAt (h : InStep crew w₀ m₀ k w m) (hcannot : m.canMove crew w = false)
    (hended : ∀ r, ¬ m.Ended r) (halone : EndsAlone crew w₀ m₀ t r) :
    ∃ s, m.wakeAt = some s ∧ w.now < s ∧ s ≤ t := by
  have hlater : ∀ s, m.wakeAt = some s → w.now < s := by
    intro s hs
    rw [canMove_of_wakeAt hs] at hcannot
    simpa using hcannot
  rcases h with ⟨v, hplays, -, -, hcannot', -⟩ | ⟨v, hplays, hagrees, hv⟩
  · obtain ⟨s, hs, hle⟩ := (halone.of_plays hplays).exists_wakeAt hcannot' hended
    exact ⟨s, hs, hlater s hs, hle⟩
  · rw [canMove_congr hagrees hv.symm] at hcannot
    obtain ⟨s, hs, hle⟩ := (halone.of_plays hplays).exists_wakeAt hcannot hended
    exact ⟨s, hs, hlater s hs, hle⟩

/-! ### Being stopped -/

omit [ClientModel σ] in
/-- A member that has ended has nothing left to give up. -/
theorem agrees_drop_close {v : World σ n} (hagrees : Agrees crew m.who w v) (hended : m.Ended r)
    (hclaims : m.who ∉ v.claims) : Agrees crew m.who (m.drop w) (m.close v r) := by
  have hdrop : ∀ u : World σ n, m.drop u = u.release m.who := by
    intro u
    unfold drop
    rw [hended]
  cases r with
  | ok a =>
    rw [hdrop]
    exact hagrees.release_left hclaims
  | error f =>
    rw [close, hdrop, hdrop]
    exact hagrees.release

omit [ClientModel σ] in
/-- Giving up a member at this time, and where it waited by itself. -/
theorem agrees_drop_atTime {v : World σ n} (hagrees : Agrees crew m.who w v) (hle : v.now ≤ w.now) :
    Agrees crew m.who (m.drop w) (m.drop (v.atTime w.now)) := by
  refine drop_congr (hagrees.trans (agrees_atTime crew m.who v w.now).symm) ?_
  exact (Nat.max_eq_right hle).symm

/-- A member that cannot go on any more at this time is given up as it would be by itself. -/
theorem InStep.stopsAlone (hstart : ∀ r, ¬ m₀.Ended r) (h : InStep crew w₀ m₀ k w m)
    (hcannot : m.canMove crew w = false) :
    ∃ v, StopsAlone crew w₀ m₀ w.now true v ∧ Agrees crew m.who (m.drop w) v := by
  -- Whether it came here before or at this time, it cannot go on by itself either.
  obtain ⟨v, hplays, hagrees, hle, hcannot'⟩ : ∃ v, Plays crew w₀ m₀ k v m ∧
      Agrees crew m.who w v ∧ v.now ≤ w.now ∧ m.canMove crew v = false := by
    rcases h with ⟨v, hplays, hagrees, hv, hcannot', -⟩ | ⟨v, hplays, hagrees, hv⟩
    · exact ⟨v, hplays, hagrees, Nat.le_of_lt hv, hcannot'⟩
    · exact ⟨v, hplays, hagrees, Nat.le_of_eq hv, canMove_congr hagrees hv.symm ▸ hcannot⟩
  by_cases hended : ∃ r, m.Ended r
  · obtain ⟨r, hended⟩ := hended
    exact ⟨_, hplays.stopsAlone_of_ended hended hle,
      agrees_drop_close hagrees hended (hplays.notMem_claims hstart hended)⟩
  · refine ⟨_, hplays.stopsAlone_of_waits hcannot' (not_exists.mp hended) ?_ hle,
      agrees_drop_atTime hagrees hle⟩
    intro s hs
    rw [canMove_of_wakeAt hs] at hcannot
    simpa using hcannot

/-- A member that has not done anything at this time is given up as it would be by itself. -/
theorem Rested.stopsAlone (hstart : ∀ r, ¬ m₀.Ended r) (h : Rested crew w₀ m₀ k w m) :
    ∃ v, StopsAlone crew w₀ m₀ w.now false v ∧ Agrees crew m.who (m.drop w) v := by
  obtain ⟨v, hplays, hagrees, hlt, hcannot, hwake⟩ := h
  by_cases hended : ∃ r, m.Ended r
  · obtain ⟨r, hended⟩ := hended
    exact ⟨_, hplays.stopsAlone_before_of_ended hended hlt,
      agrees_drop_close hagrees hended (hplays.notMem_claims hstart hended)⟩
  · exact ⟨_, hplays.stopsAlone_before_of_waits hcannot (not_exists.mp hended) hwake hlt,
      agrees_drop_atTime hagrees (Nat.le_of_lt hlt)⟩

/-- A member that has ended well is left as it would be by itself. -/
theorem InStep.stopsAlone_of_succeeded {a : κ.Answer} (h : InStep crew w₀ m₀ k w m)
    (hended : m.Ended (.ok a)) :
    ∃ v, StopsAlone crew w₀ m₀ w.now true v ∧ Agrees crew m.who w v := by
  rcases h with ⟨v, hplays, hagrees, hv, -⟩ | ⟨v, hplays, hagrees, hv⟩
  · exact ⟨v, hplays.stopsAlone_of_ended hended (Nat.le_of_lt hv), hagrees⟩
  · exact ⟨v, hplays.stopsAlone_of_ended hended (Nat.le_of_eq hv), hagrees⟩

end Member

end BotScript
