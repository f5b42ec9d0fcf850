import BotScript.Activity.Run
import BotScript.Client.DryRun

/-!
# What an activity does to the world

The fuel of a run only bounds how far it is followed: a run that has come to its end comes to the
same end with more fuel, and one that has not has so far done a part of what it does with more fuel.
Whatever an activity does is a dealing with clients. So it only adds to the journal, and what it
adds are calls and their ends, never lines of the script.

## Main definitions

* `World.Dealt`: a world has come of another one by dealings with clients.
* `World.Follows`: calls were made or came to their ends, and nothing else was written down.
* `Running.tick`: one small step of a run.
* `Outcome.world`: the world in which a run has come to its end, or out of fuel.
* `Outcome.IsFinal`: the run did not end for lack of fuel.

## Main results

* `Running.run_dealt`: a run does nothing but deal with clients.
* `Running.run_follows`: a run writes down calls and their ends only.
* `Running.run_eq_of_isFinal`: more fuel keeps a final outcome.
* `Running.run_world_follows`: with more fuel, a run writes down at least as much.
-/

namespace BotScript

/-! ### Growth of the journal -/

/-- The line that an event writes, if it is a line of the script. -/
def Event.line? {n : Nat} : Event n → Option String
  | .line text => some text
  | _ => none

namespace World

variable {σ : Type} {n : Nat} {u v w : World σ n}

/-- The journal of `v` goes on from that of `w`, without lines of the script. -/
def Follows (v w : World σ n) : Prop :=
  ∃ events : List (Event n), v.journal = events ++ w.journal ∧ ∀ e ∈ events, e.line? = none

theorem lines_eq (w : World σ n) : w.lines = w.history.filterMap Event.line? := by
  unfold lines
  congr 1

theorem Follows.of_journal_eq (h : v.journal = w.journal) : Follows v w := ⟨[], h, by simp⟩

theorem Follows.refl (w : World σ n) : Follows w w := .of_journal_eq rfl

theorem Follows.trans (huv : Follows u v) (hvw : Follows v w) : Follows u w := by
  obtain ⟨newer, hu, hnewer⟩ := huv
  obtain ⟨older, hv, holder⟩ := hvw
  refine ⟨newer ++ older, by rw [hu, hv, List.append_assoc], ?_⟩
  intro e he
  rcases List.mem_append.mp he with he | he
  · exact hnewer e he
  · exact holder e he

/-- What follows has the journal of the world it follows at its end. -/
theorem Follows.journal_suffix (h : Follows v w) : w.journal <:+ v.journal := by
  obtain ⟨events, hv, -⟩ := h
  exact ⟨events, hv.symm⟩

/-- No line is written on the way. -/
theorem Follows.lines_eq (h : Follows v w) : v.lines = w.lines := by
  obtain ⟨events, hv, hevents⟩ := h
  have hnone : events.reverse.filterMap Event.line? = [] := by
    rw [List.filterMap_eq_nil_iff]
    intro e he
    exact hevents e (List.mem_reverse.mp he)
  rw [World.lines_eq, World.lines_eq, history, history, hv, List.reverse_append,
    List.filterMap_append, hnone, List.append_nil]

theorem follows_record (w : World σ n) {e : Event n} (he : e.line? = none) :
    Follows (w.record e) w :=
  ⟨[e], rfl, by simpa using he⟩

theorem atTime_of_le {t : Nat} (h : t ≤ w.now) : w.atTime t = w := by
  rw [atTime, Nat.max_eq_left h]

theorem follows_atTime (w : World σ n) (t : Nat) : Follows (w.atTime t) w := .of_journal_eq rfl

theorem follows_claim (w : World σ n) (i : Fin n) : Follows (w.claim i) w := .of_journal_eq rfl

theorem follows_release (w : World σ n) (i : Fin n) : Follows (w.release i) w := .of_journal_eq rfl

theorem follows_call [ClientModel σ] (crew : Crew n) (w : World σ n) (i : Fin n) {κ : AnswerKind}
    (c : Call κ) : Follows (w.call crew i c).2 w :=
  ⟨[.made w.now i c (w.focusHeld crew i)], rfl, by simp [Event.line?]⟩

theorem follows_answered (w : World σ n) (i : Fin n) {κ : AnswerKind} (c : Call κ) (a : κ.Answer) :
    Follows (w.answered i c a) w :=
  follows_record w rfl

theorem follows_dropped (w : World σ n) (i : Fin n) {κ : AnswerKind} (c : Call κ) :
    Follows (w.dropped i c) w :=
  follows_record w rfl

/-- Writing lines adds them to the journal, the last one on top. -/
theorem log_journal (w : World σ n) (lines : List String) :
    (w.log lines).journal = (lines.map Event.line).reverse ++ w.journal := by
  induction lines generalizing w with
  | nil => rfl
  | cons line rest ih =>
    change ((w.record (.line line)).log rest).journal = _
    rw [ih]
    simp [record]

theorem journal_suffix_log (w : World σ n) (lines : List String) :
    w.journal <:+ (w.log lines).journal := by
  rw [log_journal]
  exact List.suffix_append _ _

end World

/-! ### Dealings with clients -/

/-- Whether an event is the end of a call. -/
def Event.isEnd {n : Nat} : Event n → Bool
  | .answered .. | .failed .. | .dropped .. => true
  | .made .. | .line _ => false

namespace World

variable {σ : Type} {n : Nat} [ClientModel σ] {crew : Crew n} {u v w : World σ n}

/-- A world has come of another one by dealings with clients: calls were made or came to their ends,
time has passed, and the input focus was asked for or given up. -/
inductive Dealt (crew : Crew n) (w : World σ n) : World σ n → Prop
  | start : Dealt crew w w
  | call {v : World σ n} (h : Dealt crew w v) (i : Fin n) {κ : AnswerKind} (c : Call κ) :
      Dealt crew w (v.call crew i c).2
  | ends {v : World σ n} (h : Dealt crew w v) {e : Event n} (he : e.isEnd = true) :
      Dealt crew w (v.record e)
  | atTime {v : World σ n} (h : Dealt crew w v) (t : Nat) : Dealt crew w (v.atTime t)
  | claim {v : World σ n} (h : Dealt crew w v) (i : Fin n) : Dealt crew w (v.claim i)
  | release {v : World σ n} (h : Dealt crew w v) (i : Fin n) : Dealt crew w (v.release i)

theorem Dealt.trans (huv : Dealt crew u v) (hvw : Dealt crew v w) : Dealt crew u w := by
  induction hvw with
  | start => exact huv
  | call _ i c ih => exact ih.call i c
  | ends _ he ih => exact ih.ends he
  | atTime _ t ih => exact ih.atTime t
  | claim _ i ih => exact ih.claim i
  | release _ i ih => exact ih.release i

theorem Dealt.follows (h : Dealt crew w v) : Follows v w := by
  induction h with
  | start => exact .refl w
  | call _ i c ih => exact (follows_call crew _ i c).trans ih
  | @ends v _ e he ih =>
    have hline : e.line? = none := by
      cases e with
      | line text => cases he
      | _ => rfl
    exact (follows_record v hline).trans ih
  | atTime _ t ih => exact (follows_atTime _ t).trans ih
  | claim _ i ih => exact (follows_claim _ i).trans ih
  | release _ i ih => exact (follows_release _ i).trans ih

end World

open World

section Steps

variable {σ : Type} {n : Nat} {κ : AnswerKind} {α : Type}

theorem Member.drop_follows (w : World σ n) (m : Member n κ) : Follows (m.drop w) w := by
  unfold drop
  split
  · exact (follows_release _ _).trans (follows_dropped w _ _)
  · exact follows_release w _

/-- The world an advance leaves behind, given the one it began in. -/
def Advance.world (w : World σ n) : Advance σ n α → World σ n
  | .moved w' _ => w'
  | .ended w' _ => w'
  | .waits _ => w

variable [ClientModel σ] (crew : Crew n)

namespace Member

theorem drop_dealt (w : World σ n) (m : Member n κ) : Dealt crew w (m.drop w) := by
  unfold drop
  split
  · exact (Dealt.start.ends rfl).release _
  · exact Dealt.start.release _

theorem move_dealt (w : World σ n) (m : Member n κ) : Dealt crew w (m.move crew w).2 := by
  unfold move
  split
  · exact Dealt.start.release _
  · exact Dealt.start.release _
  · exact Dealt.start.call _ _
  · exact .start
  · exact Dealt.start.claim _
  · exact Dealt.start.call _ _
  · exact Dealt.start.ends rfl
  · exact (Dealt.start.ends rfl).release _
  · exact .start
  · exact .start
  · exact .start

theorem move_follows (w : World σ n) (m : Member n κ) : Follows (m.move crew w).2 w :=
  (m.move_dealt crew w).follows

end Member

namespace Group

theorem drop_dealt (w : World σ n) (members : List (Member n κ)) :
    Dealt crew w (Group.drop w members) := by
  induction members generalizing w with
  | nil => exact .start
  | cons m rest ih => exact (m.drop_dealt crew w).trans (ih (m.drop w))

theorem move_dealt (w : World σ n) (g : Group n κ) (i : Nat) :
    Dealt crew w (g.move crew w i).2 := by
  unfold move
  split
  · exact .start
  · exact Member.move_dealt crew w _

end Group

namespace Running

theorem drop_dealt (w : World σ n) (r : Running n α) : Dealt crew w (r.drop w) := by
  have hlaunched := Group.drop_dealt crew w r.launched
  unfold drop
  split
  · exact hlaunched.ends rfl
  · exact hlaunched.trans (Group.drop_dealt crew _ _)
  · exact hlaunched

theorem advance_dealt (w : World σ n) (r : Running n α) :
    Dealt crew w ((r.advance crew w).world w) := by
  unfold advance
  split
  · exact r.drop_dealt crew w
  · exact r.drop_dealt crew w
  · exact Dealt.start.call _ _
  · exact .start
  · exact Dealt.start.call _ _
  · exact .start
  · exact .start
  · split
    · split
      · exact Dealt.start.ends rfl
      · exact (Dealt.start.ends rfl).trans (Group.drop_dealt crew _ _)
    · exact .start
  · split
    · exact .start
    · exact .start
  · split
    · exact .start
    · exact r.drop_dealt crew w
    · split
      · exact Group.move_dealt crew w _ _
      · exact .start

end Running

end Steps

/-! ### Whole runs -/

namespace Outcome

variable {σ : Type} {n : Nat} {α : Type}

/-- The world in which a run has come to its end, or out of fuel. -/
def world : Outcome σ n α → World σ n
  | ended w _ | cancelled w | expired w | never w | outOfFuel w => w

/-- Whether a run did not end for lack of fuel. -/
def IsFinal : Outcome σ n α → Prop
  | outOfFuel _ => False
  | _ => True

instance (o : Outcome σ n α) : Decidable o.IsFinal :=
  match o with
  | ended .. | cancelled _ | expired _ | never _ => .isTrue trivial
  | outOfFuel _ => .isFalse id

end Outcome

/-! ### Alarms -/

/-- The activity is cancelled at a time only. -/
def Cue.atTime (t : Nat) : Cue := ⟨some t, none, none⟩

namespace Alarm

/-- An alarm that rings at times only, whatever the activity has done by then. -/
class Timed (alarm : Alarm) : Prop where
  hasRung : alarm.hasRung = false
  moved : alarm.moved = alarm

instance timed_none (expire : Option Nat) : Timed ⟨none, expire⟩ := ⟨rfl, rfl⟩

instance timed_atTime (t : Nat) (expire : Option Nat) : Timed ⟨some (.atTime t), expire⟩ :=
  ⟨rfl, rfl⟩

/-- What happens to an activity that waits does not depend on the small steps it has done. -/
theorem bell_moved (alarm : Alarm) : alarm.moved.bell = alarm.bell := by
  obtain ⟨cancel, expire⟩ := alarm
  cases cancel <;> rfl

/-- An alarm that has rung has rung for good. -/
theorem hasRung_moved (alarm : Alarm) (h : alarm.hasRung = true) : alarm.moved.hasRung = true := by
  obtain ⟨cancel, expire⟩ := alarm
  cases cancel with
  | none => cases h
  | some cue =>
    obtain ⟨time, moves, lines⟩ := cue
    simp only [hasRung, moved, Option.map_some, Option.any_some, Bool.or_eq_true,
      beq_iff_eq] at h ⊢
    exact h.imp_left fun hmoves => by rw [hmoves]; rfl

end Alarm

/-! ### Small steps -/

/-- What comes of one small step of a run. -/
inductive Tick (σ : Type) (n : Nat) (α : Type) where
  /-- The run has come to its end. -/
  | halt (o : Outcome σ n α)
  | on (w : World σ n) (r : Running n α)

namespace Running

variable {σ : Type} {n : Nat} {α : Type} [ClientModel σ] {crew : Crew n} {alarm : Alarm}
  {less fuel : Nat} {w : World σ n} {r : Running n α}

/-- One small step of a run: the activity is stopped, does one thing, or lets time pass
until it can. -/
def tick (crew : Crew n) (alarm : Alarm) (w : World σ n) (r : Running n α) : Tick σ n α :=
  if r.waits && alarm.hasRung then .halt (.cancelled (r.drop w))
  else
    match r.advance crew w with
    | .moved w r => .on w r
    | .ended w result => .halt (.ended w result)
    | .waits till =>
      match alarm.bell till with
      | .wake t => .on (w.atTime t) r.wake
      | .cancel t => .halt (.cancelled (r.drop (w.atTime t)))
      | .expire t => .halt (.expired (r.drop (w.atTime t)))
      | .never => .halt (.never w)

theorem run_succ (crew : Crew n) (alarm : Alarm) (fuel : Nat) (w : World σ n) (r : Running n α) :
    r.run crew alarm (fuel + 1) w =
      match r.tick crew alarm w with
      | .halt o => o
      | .on w r => r.run crew alarm.moved fuel w := by
  rw [run, tick]
  split
  · rfl
  · cases r.advance crew w with
    | moved w' r' => rfl
    | ended w' result => rfl
    | waits till =>
      dsimp only
      cases alarm.bell till <;> rfl

theorem run_succ_halt {o : Outcome σ n α} (h : r.tick crew alarm w = .halt o) (fuel : Nat) :
    r.run crew alarm (fuel + 1) w = o := by
  rw [run_succ, h]

theorem run_succ_on_moved {w' : World σ n} {r' : Running n α}
    (h : r.tick crew alarm w = .on w' r') (fuel : Nat) :
    r.run crew alarm (fuel + 1) w = r'.run crew alarm.moved fuel w' := by
  rw [run_succ, h]

theorem run_succ_on [alarm.Timed] {w' : World σ n} {r' : Running n α}
    (h : r.tick crew alarm w = .on w' r') (fuel : Nat) :
    r.run crew alarm (fuel + 1) w = r'.run crew alarm fuel w' := by
  rw [run_succ_on_moved h, Alarm.Timed.moved]

/-- With an alarm that rings at times only, an activity is stopped only while it has to wait. -/
theorem tick_eq [alarm.Timed] (crew : Crew n) (w : World σ n) (r : Running n α) :
    r.tick crew alarm w =
      match r.advance crew w with
      | .moved w r => .on w r
      | .ended w result => .halt (.ended w result)
      | .waits till =>
        match alarm.bell till with
        | .wake t => .on (w.atTime t) r.wake
        | .cancel t => .halt (.cancelled (r.drop (w.atTime t)))
        | .expire t => .halt (.expired (r.drop (w.atTime t)))
        | .never => .halt (.never w) := by
  rw [tick, Alarm.Timed.hasRung, Bool.and_false, if_neg Bool.false_ne_true]

theorem run_eq [alarm.Timed] (crew : Crew n) (fuel : Nat) (w : World σ n) (r : Running n α) :
    r.run crew alarm (fuel + 1) w =
      match r.advance crew w with
      | .moved w r => r.run crew alarm fuel w
      | .ended w result => .ended w result
      | .waits till =>
        match alarm.bell till with
        | .wake t => r.wake.run crew alarm fuel (w.atTime t)
        | .cancel t => .cancelled (r.drop (w.atTime t))
        | .expire t => .expired (r.drop (w.atTime t))
        | .never => .never w := by
  rw [run_succ, tick_eq, Alarm.Timed.moved]
  cases r.advance crew w with
  | moved w r => rfl
  | ended w result => rfl
  | waits till =>
    dsimp only
    cases alarm.bell till <;> rfl

/-- An activity goes on if it has done one thing, or if it wakes at a later time. -/
theorem of_tick_on {w' : World σ n} {r' : Running n α} (h : r.tick crew alarm w = .on w' r') :
    r.advance crew w = .moved w' r' ∨
      ∃ till t, r.advance crew w = .waits till ∧ w' = w.atTime t ∧ r' = r.wake := by
  unfold tick at h
  split at h
  · cases h
  · split at h
    · rename_i hadvance
      cases h
      exact .inl hadvance
    · cases h
    · rename_i till hadvance
      split at h
      · rename_i t _
        cases h
        exact .inr ⟨till, t, hadvance, rfl, rfl⟩
      all_goals cases h

/-- A run halts where the activity comes to its end, is stopped at a time, or waits for ever. -/
theorem of_tick_halt {o : Outcome σ n α} (h : r.tick crew alarm w = .halt o) :
    (∃ w' result, r.advance crew w = .ended w' result ∧ o = .ended w' result) ∨
      (∃ t, o = .cancelled (r.drop (w.atTime t)) ∨ o = .expired (r.drop (w.atTime t))) ∨
      o = .never w := by
  unfold tick at h
  split at h
  · cases h
    exact .inr (.inl ⟨w.now, .inl (by rw [World.atTime_of_le (Nat.le_refl _)])⟩)
  · split at h
    · cases h
    · rename_i w' result hadvance
      cases h
      exact .inl ⟨w', result, hadvance, rfl⟩
    · split at h
      · cases h
      · rename_i t _
        cases h
        exact .inr (.inl ⟨t, .inl rfl⟩)
      · rename_i t _
        cases h
        exact .inr (.inl ⟨t, .inr rfl⟩)
      · cases h
        exact .inr (.inr rfl)

/-- An activity that goes on with a later alarm does so with this one. -/
theorem tick_of_moved {w' : World σ n} {r' : Running n α}
    (h : r.tick crew alarm.moved w = .on w' r') : r.tick crew alarm w = .on w' r' := by
  have hbell : alarm.moved.bell = alarm.bell := alarm.bell_moved
  unfold tick at h ⊢
  rw [hbell] at h
  cases hrung : alarm.hasRung with
  | false =>
    rw [Bool.and_false, if_neg Bool.false_ne_true]
    split at h
    · cases h
    · exact h
  | true =>
    rw [alarm.hasRung_moved hrung] at h
    exact h

/-- A small step does nothing but deal with clients. -/
theorem tick_dealt (crew : Crew n) (alarm : Alarm) (w : World σ n) (r : Running n α) :
    match r.tick crew alarm w with
    | .halt o => Dealt crew w o.world
    | .on w' _ => Dealt crew w w' := by
  have hadvance := r.advance_dealt crew w
  -- Time passes without a trace; being stopped drops calls.
  have hlater : ∀ t, Dealt crew w (w.atTime t) := fun t => Dealt.start.atTime t
  cases htick : r.tick crew alarm w with
  | on w' r' =>
    rcases of_tick_on htick with hadv | ⟨till, t, -, rfl, rfl⟩
    · rw [hadv] at hadvance
      exact hadvance
    · exact hlater t
  | halt o =>
    rcases of_tick_halt htick with ⟨w', result, hadv, rfl⟩ | ⟨t, rfl | rfl⟩ | rfl
    · rw [hadv] at hadvance
      exact hadvance
    · exact (hlater t).trans (r.drop_dealt crew _)
    · exact (hlater t).trans (r.drop_dealt crew _)
    · exact .start

/-- A run does nothing but deal with clients. -/
theorem run_dealt (crew : Crew n) (alarm : Alarm) (fuel : Nat) (w : World σ n) (r : Running n α) :
    Dealt crew w (r.run crew alarm fuel w).world := by
  induction fuel generalizing alarm w r with
  | zero => exact .start
  | succ fuel ih =>
    have hstep := tick_dealt crew alarm w r
    cases htick : r.tick crew alarm w with
    | halt o =>
      rw [htick] at hstep
      rw [run_succ_halt htick]
      exact hstep
    | on w' r' =>
      rw [htick] at hstep
      rw [run_succ_on_moved htick]
      exact hstep.trans (ih alarm.moved w' r')

/-- A run writes down calls and their ends only. -/
theorem run_follows (crew : Crew n) (alarm : Alarm) (fuel : Nat) (w : World σ n) (r : Running n α) :
    Follows (r.run crew alarm fuel w).world w :=
  (run_dealt crew alarm fuel w r).follows

/-- More fuel keeps a final outcome. -/
theorem run_eq_of_isFinal (hle : less ≤ fuel) (h : (r.run crew alarm less w).IsFinal) :
    r.run crew alarm fuel w = r.run crew alarm less w := by
  induction less generalizing alarm fuel w r with
  | zero => exact h.elim
  | succ less ih =>
    -- Both runs take the same small step, after which they have one less to go.
    obtain ⟨fuel, rfl⟩ := Nat.exists_eq_add_of_le' (Nat.one_le_of_lt hle)
    cases htick : r.tick crew alarm w with
    | halt o => rw [run_succ_halt htick, run_succ_halt htick]
    | on w' r' =>
      rw [run_succ_on_moved htick] at h
      rw [run_succ_on_moved htick, run_succ_on_moved htick]
      exact ih (Nat.le_of_succ_le_succ hle) h

/-- A run has one final outcome. -/
theorem run_unique (h : (r.run crew alarm less w).IsFinal)
    (h' : (r.run crew alarm fuel w).IsFinal) :
    r.run crew alarm less w = r.run crew alarm fuel w := by
  rw [← run_eq_of_isFinal (Nat.le_max_left less fuel) h,
    run_eq_of_isFinal (Nat.le_max_right less fuel) h']

/-- With more fuel, a run writes down at least as much. -/
theorem run_world_follows (crew : Crew n) (alarm : Alarm) (hle : less ≤ fuel) (w : World σ n)
    (r : Running n α) : Follows (r.run crew alarm fuel w).world
    (r.run crew alarm less w).world := by
  induction less generalizing alarm fuel w r with
  | zero => exact run_follows crew alarm fuel w r
  | succ less ih =>
    obtain ⟨fuel, rfl⟩ := Nat.exists_eq_add_of_le' (Nat.one_le_of_lt hle)
    cases htick : r.tick crew alarm w with
    | halt o =>
      rw [run_succ_halt htick, run_succ_halt htick]
      exact .refl o.world
    | on w' r' =>
      rw [run_succ_on_moved htick, run_succ_on_moved htick]
      exact ih alarm.moved (Nat.le_of_succ_le_succ hle) w' r'

end Running

end BotScript
