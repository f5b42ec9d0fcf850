import BotScript.Proofs.Activity.Ensures
import BotScript.Proofs.Activity.Members
import BotScript.Proofs.Activity.Verdict

/-!
# Members by themselves

A member of a group, run as a group of its own: it goes on while it can, and otherwise waits until
it can. What comes of it, and when, is what a run of the whole group is compared with.

## Main definitions

* `Member.alone`: a member as a group of its own.
* `Member.EndsAlone`: when a member comes to its end by itself, and with which result.
* `Member.StopsAlone`: what comes of a member that is stopped at a time.
* `Member.Plays`: a number of things that a member does by itself.

## Main results

* `Member.Plays.run_add`: a run of a member begins with what it does.
* `Member.EndsAlone.unique`: a member ends in one way only.
* `Member.EndsAlone.exists_wakeAt`: a member that comes to its end, and cannot go on
  now, waits for a time.
-/

namespace BotScript

open World

variable {σ : Type} {n : Nat} {κ : AnswerKind} {α : Type}

/-! ### Time -/

namespace Group

@[simp] theorem move_now [ClientModel σ] (crew : Crew n) (w : World σ n) (g : Group n κ) (i : Nat) :
    (g.move crew w i).2.now = w.now := by
  unfold move
  split
  · rfl
  · exact Member.move_now crew w _

end Group

namespace Running

variable [ClientModel σ]

/-- What an activity does takes no time. -/
theorem advance_now (crew : Crew n) (w : World σ n) (r : Running n α) :
    ((r.advance crew w).world w).now = w.now := by
  unfold advance
  split
  · exact r.drop_now w
  · exact r.drop_now w
  · rfl
  · rfl
  · rfl
  · rfl
  · rfl
  · split
    · split
      · rfl
      · exact Group.drop_now _ _
    · rfl
  · split <;> rfl
  · split
    · rfl
    · exact r.drop_now w
    · split
      · exact Group.move_now crew w _ _
      · rfl

/-- The clock never goes back. -/
theorem now_le_run (crew : Crew n) (alarm : Alarm) (fuel : Nat) (w : World σ n) (r : Running n α) :
    w.now ≤ (r.run crew alarm fuel w).world.now := by
  induction fuel generalizing alarm w r with
  | zero => exact Nat.le_refl _
  | succ fuel ih =>
    have hadvance := advance_now crew w r
    have hlater : ∀ t, w.now ≤ (w.atTime t).now := fun t => Nat.le_max_left _ _
    cases htick : r.tick crew alarm w with
    | on w₁ r₁ =>
      rw [run_succ_on_moved htick]
      refine Nat.le_trans ?_ (ih alarm.moved w₁ r₁)
      rcases of_tick_on htick with hadv | ⟨till, t, -, rfl, rfl⟩
      · rw [hadv] at hadvance
        exact Nat.le_of_eq hadvance.symm
      · exact hlater t
    | halt o =>
      rw [run_succ_halt htick]
      rcases of_tick_halt htick with ⟨w₁, result, hadv, rfl⟩ | ⟨t, rfl | rfl⟩ | rfl
      · rw [hadv] at hadvance
        exact Nat.le_of_eq hadvance.symm
      · exact Nat.le_trans (hlater t) (Nat.le_of_eq (drop_now _ r).symm)
      · exact Nat.le_trans (hlater t) (Nat.le_of_eq (drop_now _ r).symm)
      · exact Nat.le_refl _

end Running

namespace Member

/-! ### A group of one -/

/-- A member as a group of its own. -/
def alone (m : Member n κ) : Running n (List κ.Answer) := ⟨[], .grouped ⟨[m], 0⟩ .done⟩

variable {crew : Crew n} {alarm : Alarm} [alarm.Timed] {w v : World σ n} {m m' : Member n κ}
  {r : Except Fault κ.Answer}

theorem not_ended_of_canMove (h : m.canMove crew w = true) : ∀ r, ¬ m.Ended r := by
  intro r hended
  rw [canMove_of_ended hended] at h
  cases h

theorem not_ended_of_wakeAt {t : Nat} (h : m.wakeAt = some t) : ∀ r, ¬ m.Ended r := by
  intro r hended
  rw [wakeAt_of_ended hended] at h
  cases h

private theorem verdict_alone (h : ∀ r, ¬ m.Ended r) : Group.verdict ⟨[m], 0⟩ = none := by
  obtain ⟨who, stage⟩ := m
  cases stage with
  | ended r => exact absurd rfl (h r)
  | _ => rfl

private theorem next?_alone (crew : Crew n) (w : World σ n) (m : Member n κ) :
    Group.next? crew w ⟨[m], 0⟩ = if m.canMove crew w then some 0 else none := by
  cases h : m.canMove crew w <;> simp [Group.next?, Group.firstFrom, h]

variable [ClientModel σ]

theorem tick_alone_of_canMove (h : m.canMove crew w = true) :
    m.alone.tick crew alarm w = .on (m.move crew w).2 (m.move crew w).1.alone := by
  have hnext : Group.next? crew w ⟨[m], 0⟩ = some 0 := by rw [next?_alone, if_pos h]
  simp only [Running.tick_eq, alone, Running.advance, verdict_alone (not_ended_of_canMove h), hnext]
  rfl

theorem tick_alone_of_waits (hcannot : m.canMove crew w = false) (hended : ∀ r, ¬ m.Ended r) :
    m.alone.tick crew alarm w =
      match alarm.bell m.wakeAt with
      | .wake t => .on (w.atTime t) m.alone
      | .cancel t => .halt (.cancelled (m.drop (w.atTime t)))
      | .expire t => .halt (.expired (m.drop (w.atTime t)))
      | .never => .halt (.never w) := by
  have hnext : Group.next? crew w ⟨[m], 0⟩ = none := by
    rw [next?_alone, hcannot]
    rfl
  have hwake : Group.wakeAt ⟨[m], 0⟩ = m.wakeAt := by
    cases h : m.wakeAt <;> simp [Group.wakeAt, h, earlier]
  simp only [Running.tick_eq, alone, Running.advance, verdict_alone hended, hnext, hwake]
  rfl

/-- A member that has ended is given up, if it has failed, and otherwise left as it is. -/
def close (w : World σ n) (m : Member n κ) : Except Fault κ.Answer → World σ n
  | .ok _ => w
  | .error _ => m.drop w

/-- A run of a member that has ended. -/
theorem run_alone_of_ended (h : m.Ended r) (fuel : Nat) :
    m.alone.run crew alarm (fuel + 2) w = .ended (m.close w r) (r.map fun a => [a]) := by
  obtain ⟨who, stage⟩ := m
  obtain rfl : stage = .ended r := h
  cases r with
  | ok a =>
    have hverdict : Running.tick crew alarm w (alone ⟨who, .ended (.ok a)⟩) =
        .on w ⟨[], .going (.done [a])⟩ := Running.tick_eq crew w _
    have hend : Running.tick crew alarm w (⟨[], .going (.done [a])⟩ : Running n (List κ.Answer)) =
        .halt (.ended w (.ok [a])) := Running.tick_eq crew w _
    rw [Running.run_succ_on hverdict, Running.run_succ_halt hend]
    rfl
  | error f => exact Running.run_succ_halt (Running.tick_eq crew w _) _

/-! ### What a member does by itself -/

/-- A member does a number of things by itself: it goes on, or the time comes that it waits for. -/
inductive Plays (crew : Crew n) (w : World σ n) (m : Member n κ) :
    Nat → World σ n → Member n κ → Prop
  | start : Plays crew w m 0 w m
  | move {k : Nat} {v : World σ n} {m' : Member n κ} (h : Plays crew w m k v m')
      (hmove : m'.canMove crew v = true) :
      Plays crew w m (k + 1) (m'.move crew v).2 (m'.move crew v).1
  | wake {k t : Nat} {v : World σ n} {m' : Member n κ} (h : Plays crew w m k v m')
      (hcannot : m'.canMove crew v = false) (hwake : m'.wakeAt = some t) :
      Plays crew w m (k + 1) (v.atTime t) m'

variable {k : Nat}

theorem Plays.who_eq (h : Plays crew w m k v m') : m'.who = m.who := by
  induction h with
  | start => rfl
  | move _ _ ih => rw [move_who, ih]
  | wake _ _ _ ih => exact ih

theorem Plays.now_le (h : Plays crew w m k v m') : w.now ≤ v.now := by
  induction h with
  | start => exact Nat.le_refl _
  | move _ _ ih => rwa [move_now]
  | wake _ _ _ ih => exact Nat.le_trans ih (Nat.le_max_left _ _)

/-- A run of a member begins with what it does by itself, if nothing stops it before. -/
theorem Plays.run_add (h : Plays crew w m k v m')
    (hbell : ∀ t ≤ v.now, alarm.bell (some t) = .wake t) (fuel : Nat) :
    m.alone.run crew alarm (fuel + k) w = m'.alone.run crew alarm fuel v := by
  induction h generalizing fuel with
  | start => rfl
  | @move k v m' _ hmove ih =>
    rw [move_now] at hbell
    rw [← Nat.add_assoc, Nat.add_right_comm, ih hbell,
      Running.run_succ_on (tick_alone_of_canMove hmove)]
  | @wake k t v m' _ hcannot hwake ih =>
    have htick : m'.alone.tick crew alarm v = .on (v.atTime t) m'.alone := by
      rw [tick_alone_of_waits hcannot (not_ended_of_wakeAt hwake), hwake,
        hbell t (Nat.le_max_right _ _)]
    rw [← Nat.add_assoc, Nat.add_right_comm,
      ih fun s hs => hbell s (Nat.le_trans hs (Nat.le_max_left _ _)), Running.run_succ_on htick]

/-- What a member does by itself keeps a condition on faults. -/
theorem Plays.ensures {P : Fault → Prop} (hclient : ∀ e, P (.client (crew.title m.who) e))
    (hm : m.stage.Ensures P) (h : Plays crew w m k v m') : m'.stage.Ensures P := by
  induction h with
  | start => exact hm
  | move hplays _ ih => exact move_ensures (hplays.who_eq ▸ hclient) ih
  | wake _ _ _ ih => exact ih

/-- A member that has come to its end claims the input focus no more. -/
theorem Plays.notMem_claims (hstart : ∀ r, ¬ m.Ended r) (h : Plays crew w m k v m')
    (hended : m'.Ended r) : m'.who ∉ v.claims := by
  -- It is the last thing it did that ended it, and every end gives the claim up.
  cases h with
  | start => exact absurd hended (hstart r)
  | @move k v m' _ hmove =>
    rw [move_who]
    have hreleased : ∀ u : World σ n, m'.who ∉ (u.release m'.who).claims := by
      intro u
      simp [World.release]
    revert hended
    unfold Member.move Ended
    split
    · exact fun _ => hreleased _
    · exact fun _ => hreleased _
    · rintro ⟨⟩
    · rintro ⟨⟩
    · rintro ⟨⟩
    · rintro ⟨⟩
    · rintro ⟨⟩
    · exact fun _ => hreleased _
    · rintro ⟨⟩
    · rintro ⟨⟩
    · rename_i hstage
      exact absurd hstage (not_ended_of_canMove hmove _)
  | wake _ _ hwake => exact absurd hended (not_ended_of_wakeAt hwake r)

/-! ### The end of a member -/

/-- By itself, a member comes to its end at a time, with a result. -/
def EndsAlone (crew : Crew n) (w : World σ n) (m : Member n κ) (t : Nat)
    (r : Except Fault κ.Answer) :
    Prop :=
  ∃ fuel w', m.alone.run crew ⟨none, none⟩ fuel w = .ended w' (r.map fun a => [a]) ∧ w'.now = t

variable {t t' : Nat} {r' : Except Fault κ.Answer}

private theorem result_injective (h : r.map (fun a => [a]) = r'.map fun a => [a]) : r = r' := by
  cases r with
  | error f =>
    cases r' with
    | error f' =>
      cases h
      rfl
    | ok a' => cases h
  | ok a =>
    cases r' with
    | error f' => cases h
    | ok a' =>
      cases h
      rfl

/-- A member that does some things by itself and then has ended. -/
theorem Plays.endsAlone (h : Plays crew w m k v m') (hended : m'.Ended r) :
    EndsAlone crew w m v.now r := by
  refine ⟨2 + k, m'.close v r, ?_, ?_⟩
  · rw [h.run_add fun t _ => rfl]
    exact run_alone_of_ended hended 0
  · cases r with
    | ok a => rfl
    | error f => exact m'.drop_now v

/-- A member ends in one way only. -/
theorem EndsAlone.unique (h : EndsAlone crew w m t r) (h' : EndsAlone crew w m t' r') :
    t = t' ∧ r = r' := by
  obtain ⟨fuel, w₁, hrun, rfl⟩ := h
  obtain ⟨fuel', w₁', hrun', rfl⟩ := h'
  have hfinal : (m.alone.run crew ⟨none, none⟩ fuel w).IsFinal := by rw [hrun]; trivial
  have hfinal' : (m.alone.run crew ⟨none, none⟩ fuel' w).IsFinal := by rw [hrun']; trivial
  have hsame := Running.run_unique hfinal hfinal'
  rw [hrun, hrun', Outcome.ended.injEq] at hsame
  exact ⟨congrArg World.now hsame.1, result_injective hsame.2⟩

/-- A member that has done some things by itself still comes to the same end. -/
theorem EndsAlone.of_plays (h : EndsAlone crew w m t r) (hplays : Plays crew w m k v m') :
    EndsAlone crew v m' t r := by
  obtain ⟨fuel, w', hrun, hnow⟩ := h
  refine ⟨fuel, w', ?_, hnow⟩
  have hmore := Running.run_eq_of_isFinal (Nat.le_add_right fuel k) (by rw [hrun]; trivial)
  rw [← hplays.run_add fun t _ => rfl, hmore, hrun]

theorem EndsAlone.now_le (h : EndsAlone crew w m t r) : w.now ≤ t := by
  obtain ⟨fuel, w', hrun, rfl⟩ := h
  have hle := Running.now_le_run crew ⟨none, none⟩ fuel w m.alone
  rwa [hrun] at hle

/-- A member that comes to its end, but not yet, and cannot go on now waits for a time
until then. -/
theorem EndsAlone.exists_wakeAt (h : EndsAlone crew w m t r) (hcannot : m.canMove crew w = false)
    (hended : ∀ r, ¬ m.Ended r) : ∃ s, m.wakeAt = some s ∧ s ≤ t := by
  cases hwake : m.wakeAt with
  | none =>
    -- If it waited for no time, it would wait for ever by itself.
    obtain ⟨fuel, w', hrun, -⟩ := h
    have htick : m.alone.tick crew ⟨none, none⟩ w = .halt (.never w) := by
      rw [tick_alone_of_waits hcannot hended, hwake]
      rfl
    cases fuel with
    | zero => cases hrun
    | succ fuel =>
      rw [Running.run_succ_halt htick] at hrun
      cases hrun
  | some s =>
    have hlater := h.of_plays (.wake .start hcannot hwake)
    exact ⟨s, rfl, Nat.le_trans (Nat.le_max_right _ _) hlater.now_le⟩

/-- What a member does by itself until it has come to its end. -/
theorem Plays.exists_ended (h : Plays crew w m k v m') {fuel : Nat} {w' : World σ n}
    {result : Except Fault (List κ.Answer)}
    (hrun : m'.alone.run crew ⟨none, none⟩ fuel v = .ended w' result) :
    ∃ k' v' m'' r, Plays crew w m k' v' m'' ∧ m''.Ended r := by
  induction fuel generalizing k v m' with
  | zero => cases hrun
  | succ fuel ih =>
    by_cases hended : ∃ r, m'.Ended r
    · obtain ⟨r, hended⟩ := hended
      exact ⟨k, v, m', r, h, hended⟩
    · cases hmove : m'.canMove crew v with
      | true =>
        rw [Running.run_succ_on (tick_alone_of_canMove hmove)] at hrun
        exact ih (h.move hmove) hrun
      | false =>
        have htick : m'.alone.tick crew ⟨none, none⟩ v = _ :=
          tick_alone_of_waits hmove (not_exists.mp hended)
        cases hwake : m'.wakeAt with
        | none =>
          rw [hwake] at htick
          rw [Running.run_succ_halt htick] at hrun
          cases hrun
        | some t =>
          rw [hwake] at htick
          rw [Running.run_succ_on htick] at hrun
          exact ih (h.wake hmove hwake) hrun

/-- The fault with which a member ends is one that its chain has, or that of a call of
its client. -/
theorem EndsAlone.ensures {P : Fault → Prop} {f : Fault}
    (hclient : ∀ e, P (.client (crew.title m.who) e)) (hm : m.stage.Ensures P)
    (h : EndsAlone crew w m t (.error f)) : P f := by
  obtain ⟨fuel, w', hrun, -⟩ := id h
  obtain ⟨k, v, m', r, hplays, hended⟩ := Plays.exists_ended .start hrun
  obtain rfl := ((hplays.endsAlone hended).unique h).2
  have hensures := hplays.ensures hclient hm
  rw [hended] at hensures
  exact hensures

/-! ### Being stopped -/

/-- By itself, a member is stopped at a time, after or before it does what it can do at that time;
if it would begin only then, it may be stopped before it does anything. -/
inductive StopsAlone (crew : Crew n) (w : World σ n) (m : Member n κ) (t : Nat) :
    Bool → World σ n → Prop
  | after {fuel : Nat} {o : Outcome σ n (List κ.Answer)}
      (hrun : m.alone.run crew ⟨none, some t⟩ fuel w = o) (hfinal : o.IsFinal) :
      StopsAlone crew w m t true o.world
  | before {fuel : Nat} {o : Outcome σ n (List κ.Answer)} (hlater : w.now < t)
      (hrun : m.alone.run crew ⟨some (.atTime t), none⟩ fuel w = o) (hfinal : o.IsFinal) :
      StopsAlone crew w m t false o.world
  | untouched (hnow : w.now = t) : StopsAlone crew w m t false (m.drop w)

theorem bell_expire {s T : Nat} (h : s ≤ T) :
    Alarm.bell ⟨none, some T⟩ (some s) = .wake s := if_pos h

private theorem bell_cancel {s T : Nat} (h : s < T) :
    Alarm.bell ⟨some (.atTime T), none⟩ (some s) = .wake s := by
  have hall : ¬ (some s).all (T ≤ ·) = true := by simpa using h
  exact if_neg hall

theorem Plays.run_of_ended (h : Plays crew w m k v m') (hended : m'.Ended r)
    (hbell : ∀ t ≤ v.now, alarm.bell (some t) = .wake t) :
    m.alone.run crew alarm (2 + k) w = .ended (m'.close v r) (r.map fun a => [a]) := by
  rw [h.run_add hbell]
  exact run_alone_of_ended hended 0

theorem Plays.run_of_halt (h : Plays crew w m k v m') {o : Outcome σ n (List κ.Answer)}
    (htick : m'.alone.tick crew alarm v = .halt o)
    (hbell : ∀ t ≤ v.now, alarm.bell (some t) = .wake t) :
    m.alone.run crew alarm (1 + k) w = o := by
  rw [h.run_add hbell]
  exact Running.run_succ_halt htick 0

/-- A member that has ended by a time is not stopped any more. -/
theorem Plays.stopsAlone_of_ended (h : Plays crew w m k v m') (hended : m'.Ended r)
    (hle : v.now ≤ t) :
    StopsAlone crew w m t true (m'.close v r) :=
  .after (h.run_of_ended hended fun _ hs => bell_expire (Nat.le_trans hs hle)) trivial

/-- A member that has ended before a time is not stopped any more. -/
theorem Plays.stopsAlone_before_of_ended (h : Plays crew w m k v m') (hended : m'.Ended r)
    (hlt : v.now < t) : StopsAlone crew w m t false (m'.close v r) :=
  .before (Nat.lt_of_le_of_lt h.now_le hlt)
    (h.run_of_ended hended fun _ hs => bell_cancel (Nat.lt_of_le_of_lt hs hlt)) trivial

/-- A member that cannot go on by a time is stopped then. -/
theorem Plays.stopsAlone_of_waits (h : Plays crew w m k v m') (hcannot : m'.canMove crew v = false)
    (hended : ∀ r, ¬ m'.Ended r) (hwake : ∀ s, m'.wakeAt = some s → t < s) (hle : v.now ≤ t) :
    StopsAlone crew w m t true (m'.drop (v.atTime t)) := by
  have hbell : Alarm.bell ⟨none, some t⟩ m'.wakeAt = .expire t := by
    cases hw : m'.wakeAt with
    | none => rfl
    | some s => exact if_neg (Nat.not_le.mpr (hwake s hw))
  have htick : m'.alone.tick crew ⟨none, some t⟩ v = .halt (.expired (m'.drop (v.atTime t))) := by
    rw [tick_alone_of_waits hcannot hended, hbell]
  exact .after (h.run_of_halt htick fun _ hs => bell_expire (Nat.le_trans hs hle)) trivial

/-- A member that cannot go on before a time is stopped before it does anything then. -/
theorem Plays.stopsAlone_before_of_waits (h : Plays crew w m k v m')
    (hcannot : m'.canMove crew v = false) (hended : ∀ r, ¬ m'.Ended r)
    (hwake : ∀ s, m'.wakeAt = some s → t ≤ s) (hlt : v.now < t) :
    StopsAlone crew w m t false (m'.drop (v.atTime t)) := by
  have hbell : Alarm.bell ⟨some (.atTime t), none⟩ m'.wakeAt = .cancel t := by
    cases hw : m'.wakeAt with
    | none => rfl
    | some s =>
      have hall : (some s).all (t ≤ ·) = true := by simpa using hwake s hw
      exact if_pos hall
  have htick : m'.alone.tick crew ⟨some (.atTime t), none⟩ v =
      .halt (.cancelled (m'.drop (v.atTime t))) := by
    rw [tick_alone_of_waits hcannot hended, hbell]
  exact .before (Nat.lt_of_le_of_lt h.now_le hlt)
    (h.run_of_halt htick fun _ hs => bell_cancel (Nat.lt_of_le_of_lt hs hlt)) trivial

end Member

end BotScript
