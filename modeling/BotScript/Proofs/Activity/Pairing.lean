import Mathlib.Logic.Function.Basic
import BotScript.Proofs.Activity.Tidy
import BotScript.Proofs.Activity.Verdict

/-!
# Calls and their ends

A journal is well paired if every call is made to a client that has no other call under way, and
comes to exactly one end: it is answered, fails, or is dropped. Lines are written only while no call
is under way. What a tidy activity writes down is well paired, the calls under way are those that it
waits for, and none is left when it has come to its end or is stopped.

## Main definitions

* `Paired`: a journal is well paired, and these calls are under way at its end.
* `World.Pairs`: the same for what was written down since.
* `Running.pending`: the calls that an activity waits for.

## Main results

* `Running.tick_pairs`: what one small step writes down.
* `Running.run_pairs`: what a run writes down.
-/

namespace BotScript

open Function

/-- The call that each client has under way, if any. -/
abbrev Outstanding (n : Nat) := Fin n → Option ((κ : AnswerKind) × Call κ)

/-- No call is under way. -/
abbrev Outstanding.none {n : Nat} : Outstanding n := fun _ => .none

/-- A journal, the newest event first, is well paired, and these calls are under way at its end. -/
inductive Paired {n : Nat} : List (Event n) → Outstanding n → Prop
  | nil : Paired [] .none
  | made {events : List (Event n)} {pending : Outstanding n} {κ : AnswerKind} (time : Nat)
      (who : Fin n)
      (c : Call κ) (held : Bool) (h : Paired events pending) (hidle : pending who = none) :
      Paired (.made time who c held :: events) (update pending who (some ⟨κ, c⟩))
  | answered {events : List (Event n)} {pending : Outstanding n} {κ : AnswerKind} (time : Nat)
      (who : Fin n) (c : Call κ) (a : κ.Answer) (h : Paired events pending)
      (hbusy : pending who = some ⟨κ, c⟩) :
      Paired (.answered time who c a :: events) (update pending who none)
  | failed {events : List (Event n)} {pending : Outstanding n} {κ : AnswerKind} (time : Nat)
      (who : Fin n) (c : Call κ) (e : ClientError) (h : Paired events pending)
      (hbusy : pending who = some ⟨κ, c⟩) :
      Paired (.failed time who c e :: events) (update pending who none)
  | dropped {events : List (Event n)} {pending : Outstanding n} {κ : AnswerKind} (time : Nat)
      (who : Fin n) (c : Call κ) (h : Paired events pending) (hbusy : pending who = some ⟨κ, c⟩) :
      Paired (.dropped time who c :: events) (update pending who none)
  | line {events : List (Event n)} (text : String) (h : Paired events .none) :
      Paired (.line text :: events) .none

variable {σ : Type} {n : Nat} {κ : AnswerKind} {α : Type}

/-- One well paired journal after another that leaves no call under way. -/
theorem Paired.append {events older : List (Event n)} {pending : Outstanding n}
    (h : Paired events pending) (holder : Paired older .none) :
    Paired (events ++ older) pending := by
  induction h with
  | nil => exact holder
  | made time who c held _ hidle ih => exact .made time who c held ih hidle
  | answered time who c a _ hbusy ih => exact .answered time who c a ih hbusy
  | failed time who c e _ hbusy ih => exact .failed time who c e ih hbusy
  | dropped time who c _ hbusy ih => exact .dropped time who c ih hbusy
  | line text _ ih => exact .line text ih

namespace World

/-- What was written down since an earlier world is well paired, and these calls are under way. -/
def Pairs (w₀ w : World σ n) (pending : Outstanding n) : Prop :=
  ∃ events, w.journal = events ++ w₀.journal ∧ Paired events pending

variable {u v w w₀ : World σ n} {pending : Outstanding n} {i : Fin n}

theorem Pairs.refl (w : World σ n) : Pairs w w .none := ⟨[], rfl, .nil⟩

theorem Pairs.trans (huv : Pairs u v .none) (hvw : Pairs v w pending) : Pairs u w pending := by
  obtain ⟨older, hv, holder⟩ := huv
  obtain ⟨newer, hw, hnewer⟩ := hvw
  exact ⟨newer ++ older, by rw [hw, hv, List.append_assoc], hnewer.append holder⟩

theorem Pairs.of_journal_eq (h : Pairs w₀ v pending) (hjournal : w.journal = v.journal) :
    Pairs w₀ w pending := by
  obtain ⟨events, hv, hevents⟩ := h
  exact ⟨events, hjournal.trans hv, hevents⟩

theorem Pairs.call [ClientModel σ] (crew : Crew n) (h : Pairs w₀ w pending)
    (hidle : pending i = none) (c : Call κ) :
    Pairs w₀ (w.call crew i c).2 (update pending i (some ⟨κ, c⟩)) := by
  obtain ⟨events, hw, hevents⟩ := h
  exact ⟨_, congrArg _ hw, hevents.made w.now i c (w.focusHeld crew i) hidle⟩

theorem Pairs.answered (h : Pairs w₀ w pending) {c : Call κ} (hbusy : pending i = some ⟨κ, c⟩)
    (a : κ.Answer) : Pairs w₀ (w.answered i c a) (update pending i none) := by
  obtain ⟨events, hw, hevents⟩ := h
  exact ⟨_, congrArg _ hw, hevents.answered w.now i c a hbusy⟩

theorem Pairs.failed (h : Pairs w₀ w pending) {c : Call κ} (hbusy : pending i = some ⟨κ, c⟩)
    (e : ClientError) : Pairs w₀ (w.failed i c e) (update pending i none) := by
  obtain ⟨events, hw, hevents⟩ := h
  exact ⟨_, congrArg _ hw, hevents.failed w.now i c e hbusy⟩

theorem Pairs.dropped (h : Pairs w₀ w pending) {c : Call κ} (hbusy : pending i = some ⟨κ, c⟩) :
    Pairs w₀ (w.dropped i c) (update pending i none) := by
  obtain ⟨events, hw, hevents⟩ := h
  exact ⟨_, congrArg _ hw, hevents.dropped w.now i c hbusy⟩

theorem Pairs.log (h : Pairs w₀ w .none) (lines : List String) : Pairs w₀ (w.log lines) .none := by
  induction lines generalizing w with
  | nil => exact h
  | cons line rest ih =>
    obtain ⟨events, hw, hevents⟩ := h
    exact ih ⟨.line line :: events, congrArg _ hw, hevents.line line⟩

end World

open World

/-! ### Members of a group -/

namespace Member

/-- The call that a member waits for. -/
def pending (m : Member n κ) : Option ((ι : AnswerKind) × Call ι) :=
  match m.stage with
  | .calling c _ _ _ => some ⟨_, c⟩
  | _ => none

variable {w₀ w : World σ n} {pending : Outstanding n} {m : Member n κ}

/-- What a member does ends the call it waits for, or makes one while it waits for none. -/
theorem move_pairs [ClientModel σ] (crew : Crew n) (h : Pairs w₀ w pending)
    (hm : pending m.who = m.pending) :
    Pairs w₀ (m.move crew w).2 (update pending m.who (m.move crew w).1.pending) := by
  obtain ⟨who, stage⟩ := m
  have hself : update pending who (Member.pending ⟨who, stage⟩) = pending := by
    rw [← hm]
    exact update_eq_self who pending
  cases stage with
  | ready c =>
    have hquiet : Pairs w₀ w (update pending who none) := hself.symm ▸ h
    cases c with
    | done a => exact hquiet.of_journal_eq rfl
    | fail f => exact hquiet.of_journal_eq rfl
    | call c next => exact h.call crew hm c
    | rest ms next => exact hquiet
    | focus next => exact hquiet.of_journal_eq rfl
    | poll c enough every next => exact h.call crew hm c
  | calling c due result next =>
    cases result with
    | ok a => exact h.answered hm a
    | error e => exact (h.failed hm e).of_journal_eq rfl
  | resting due next => exact hself.symm ▸ h
  | queued next => exact hself.symm ▸ h
  | ended r => exact hself.symm ▸ h

/-- A member that is given up has no call under way any more. -/
theorem drop_pairs (h : Pairs w₀ w pending) (hm : pending m.who = m.pending) :
    Pairs w₀ (m.drop w) (update pending m.who none) := by
  obtain ⟨who, stage⟩ := m
  have hself : update pending who (Member.pending ⟨who, stage⟩) = pending := by
    rw [← hm]
    exact update_eq_self who pending
  cases stage with
  | calling c due result next => exact (h.dropped hm).of_journal_eq rfl
  | _ => exact (hself.symm ▸ h : Pairs w₀ w (update pending who none)).of_journal_eq rfl

end Member

namespace Group

/-- The calls that the members of a group wait for. -/
def pending : List (Member n κ) → Outstanding n
  | [] => .none
  | m :: rest => update (pending rest) m.who m.pending

variable {members : List (Member n κ)} {m m' : Member n κ} {w₀ w : World σ n}

theorem pending_of_notMem {i : Fin n} (h : i ∉ members.map Member.who) :
    pending members i = none := by
  induction members with
  | nil => rfl
  | cons m rest ih =>
    simp only [List.map_cons, List.mem_cons, not_or] at h
    rw [pending, update_of_ne h.1]
    exact ih h.2

/-- A member of a group has its own call under way. -/
theorem pending_of_mem (hnodup : (members.map Member.who).Nodup) (hm : m ∈ members) :
    pending members m.who = m.pending := by
  induction members with
  | nil => cases hm
  | cons first rest ih =>
    rw [List.map_cons, List.nodup_cons] at hnodup
    rcases List.mem_cons.mp hm with rfl | hm
    · exact update_self ..
    · have hne : m.who ≠ first.who := fun heq => hnodup.1 (heq ▸ List.mem_map_of_mem hm)
      rw [pending, update_of_ne hne]
      exact ih hnodup.2 hm

/-- A group in which one member has gone on. -/
theorem pending_set (hnodup : (members.map Member.who).Nodup) {i : Nat} (hm : members[i]? = some m)
    (hwho : m'.who = m.who) :
    pending (members.set i m') = update (pending members) m.who m'.pending := by
  induction members generalizing i with
  | nil => cases hm
  | cons first rest ih =>
    rw [List.map_cons, List.nodup_cons] at hnodup
    cases i with
    | zero =>
      cases hm
      simp only [List.set_cons_zero, pending, hwho, update_idem]
    | succ i =>
      have hm' : rest[i]? = some m := hm
      have hne : first.who ≠ m.who := fun heq =>
        hnodup.1 (heq ▸ List.mem_map_of_mem (List.mem_of_getElem? hm'))
      simp only [List.set_cons_succ, pending]
      rw [ih hnodup.2 hm', update_comm hne]

/-- A group with one more member. -/
theorem pending_append (h : m.who ∉ members.map Member.who) :
    pending (members ++ [m]) = update (pending members) m.who m.pending := by
  induction members with
  | nil => rfl
  | cons first rest ih =>
    simp only [List.map_cons, List.mem_cons, not_or] at h
    simp only [List.cons_append, pending]
    rw [ih h.2, update_comm (Ne.symm h.1)]

/-- A member of a group that has not begun waits for no call. -/
theorem pending_ofChains (chains : List (Fin n × Chain κ)) :
    pending (ofChains chains).members = .none := by
  induction chains with
  | nil => rfl
  | cons c rest ih =>
    change update (pending (ofChains rest).members) c.1 none = Outstanding.none
    rw [ih]
    exact update_eq_self c.1 Outstanding.none

/-- Nobody waits for a call in a group that has succeeded. -/
theorem pending_of_succeeded {results : List κ.Answer}
    (h : List.Forall₂ (fun (m : Member n κ) a => m.Ended (.ok a)) members results) :
    pending members = .none := by
  induction h with
  | nil => rfl
  | @cons m a rest results hended _ ih =>
    have hnone : m.pending = none := by rw [Member.pending, hended]
    rw [pending, ih, hnone]
    exact update_eq_self m.who Outstanding.none

theorem move_pairs [ClientModel σ] (crew : Crew n) {g : Group n κ}
    (hnodup : (g.members.map Member.who).Nodup) (h : Pairs w₀ w (pending g.members)) (i : Nat) :
    Pairs w₀ (g.move crew w i).2 (pending (g.move crew w i).1.members) := by
  unfold move
  split
  · exact h
  · rename_i m hm
    rw [pending_set hnodup hm (Member.move_who crew w m)]
    exact Member.move_pairs crew h (pending_of_mem hnodup (List.mem_of_getElem? hm))

theorem drop_pairs (hnodup : (members.map Member.who).Nodup) (h : Pairs w₀ w (pending members)) :
    Pairs w₀ (Group.drop w members) .none := by
  induction members generalizing w with
  | nil => exact h
  | cons m rest ih =>
    have hfirst := Member.drop_pairs h (pending_of_mem hnodup (List.mem_cons_self : m ∈ m :: rest))
    rw [List.map_cons, List.nodup_cons] at hnodup
    refine ih hnodup.2 ?_
    -- The others have other clients, so only its own call goes.
    have hrest : update (pending (m :: rest)) m.who none = pending rest := by
      rw [pending, update_idem, ← pending_of_notMem hnodup.1, update_eq_self]
    exact hrest ▸ hfirst

end Group

/-! ### Activities on their way -/

/-- The only call under way comes to its end. -/
private theorem update_update_none (who : Fin n) (c : Option ((κ : AnswerKind) × Call κ)) :
    update (update Outstanding.none who c) who none = Outstanding.none := by
  rw [update_idem]
  exact update_eq_self who Outstanding.none

private theorem nodup_of_inOrder {is : List (Fin n)} (h : is.Pairwise (· < ·)) : is.Nodup :=
  h.imp Fin.ne_of_lt

/-- The calls that an activity waits for. -/
def Running.pending (r : Running n α) : Outstanding n :=
  match r.phase with
  | .asking who c _ _ _ => update Outstanding.none who (some ⟨_, c⟩)
  | .grouped g _ => Group.pending g.members
  | _ => Group.pending r.launched

/-- What one thing that an activity does has to write down. -/
def Advance.Pairs (w₀ : World σ n) : Advance σ n α → Prop
  | .moved w r => World.Pairs w₀ w r.pending
  | .ended w _ => World.Pairs w₀ w .none
  | .waits _ => True

/-- What a run has to write down: it leaves calls under way only if it has not come to its end. -/
def Outcome.Pairs (w₀ : World σ n) : Outcome σ n α → Prop
  | .never w | .outOfFuel w => ∃ pending, World.Pairs w₀ w pending
  | .ended w _ | .cancelled w | .expired w => World.Pairs w₀ w .none

namespace Running

variable {every : Nat} {selected : List (Fin n)} {crew : Crew n} {alarm : Alarm}
  {w₀ w w' : World σ n} {r r' : Running n α}

/-- An activity that is given up has no call under way any more. -/
theorem drop_pairs (htidy : r.Tidy every selected) (h : Pairs w₀ w r.pending) :
    Pairs w₀ (r.drop w) .none := by
  obtain ⟨launched, phase⟩ := r
  obtain ⟨hordered, -, horder, hphase⟩ := htidy
  cases phase with
  | going a => exact Group.drop_pairs (nodup_of_inOrder horder) h
  | pausing due next => exact Group.drop_pairs (nodup_of_inOrder horder) h
  | asking who c due result next =>
    obtain rfl := List.map_eq_nil_iff.mp hphase.1
    have hdropped := h.dropped (update_self who _ _)
    rwa [pending, update_update_none] at hdropped
  | grouped g next =>
    obtain rfl := List.map_eq_nil_iff.mp hphase.1
    exact Group.drop_pairs (nodup_of_inOrder (hphase.2.1.symm ▸ hordered)) h

theorem pending_wake (r : Running n α) : r.wake.pending = r.pending := by
  obtain ⟨launched, phase⟩ := r
  cases phase <;> rfl

variable [ClientModel σ]

/-- One thing that an activity does makes or ends a call, or none. -/
theorem advance_pairs (crew : Crew n) (htidy : r.Tidy every selected) (h : Pairs w₀ w r.pending) :
    (r.advance crew w).Pairs w₀ := by
  have hdrop := drop_pairs htidy h
  obtain ⟨launched, phase⟩ := r
  obtain ⟨hordered, -, horder, hphase⟩ := htidy
  cases phase with
  | going a =>
    cases a with
    | done x => exact hdrop
    | fail f => exact hdrop
    | ask who c next =>
      obtain rfl := List.map_eq_nil_iff.mp hphase.1
      exact h.call crew rfl c
    | pause ms next => exact h
    | launch who c next =>
      -- Nothing was started on this client before.
      have hnew : who ∉ launched.map Member.who := fun hmem =>
        absurd (hphase.1 who hmem) (Fin.lt_irrefl who)
      change Pairs w₀ _ (Group.pending (launched ++ [_]))
      rw [Group.pending_append]
      · exact h.call crew (Group.pending_of_notMem hnew) c
      · exact hnew
    | join next => exact h
    | gather chains next =>
      obtain rfl := List.map_eq_nil_iff.mp hphase.1
      change Pairs w₀ w (Group.pending (Group.ofChains chains).members)
      rw [Group.pending_ofChains]
      exact h
  | asking who c due result next =>
    obtain rfl := List.map_eq_nil_iff.mp hphase.1
    simp only [advance]
    split
    · cases result with
      | ok a =>
        have hanswered := h.answered (update_self who _ _) a
        rwa [pending, update_update_none] at hanswered
      | error e =>
        have hfailed := h.failed (update_self who _ _) e
        rwa [pending, update_update_none] at hfailed
    · trivial
  | pausing due next =>
    simp only [advance]
    split
    · exact h
    · trivial
  | grouped g next =>
    obtain rfl := List.map_eq_nil_iff.mp hphase.1
    simp only [advance]
    split
    · rename_i results hverdict
      have hnone := Group.pending_of_succeeded (Group.verdict_eq_ok_iff.mp hverdict)
      change Pairs w₀ w Outstanding.none
      rw [← hnone]
      exact h
    · exact hdrop
    · split
      · exact Group.move_pairs crew (nodup_of_inOrder (hphase.2.1.symm ▸ hordered)) h _
      · trivial

/-- A small step leaves those calls under way that the activity waits for then. -/
theorem tick_pairs (htidy : r.Tidy every selected) (h : Pairs w₀ w r.pending)
    (htick : r.tick crew alarm w = .on w' r') : Pairs w₀ w' r'.pending := by
  have hadvance := advance_pairs crew htidy h
  rcases of_tick_on htick with hadv | ⟨till, t, -, rfl, rfl⟩
  · rwa [hadv] at hadvance
  · rw [pending_wake]
    exact h.of_journal_eq rfl

/-- The last small step leaves no call under way, unless the activity waits for ever. -/
theorem halt_pairs {o : Outcome σ n α} (htidy : r.Tidy every selected) (h : Pairs w₀ w r.pending)
    (htick : r.tick crew alarm w = .halt o) : o.Pairs w₀ := by
  have hadvance := advance_pairs crew htidy h
  have hstopped : ∀ t, Pairs w₀ (r.drop (w.atTime t)) .none := fun t =>
    drop_pairs htidy (h.of_journal_eq rfl)
  rcases of_tick_halt htick with ⟨w', result, hadv, rfl⟩ | ⟨t, rfl | rfl⟩ | rfl
  · rwa [hadv] at hadvance
  · exact hstopped t
  · exact hstopped t
  · exact ⟨_, h⟩

theorem Comes.pairs (hcomes : Comes crew alarm w r w' r') (htidy : r.Tidy every selected)
    (h : Pairs w₀ w r.pending) : Pairs w₀ w' r'.pending := by
  induction hcomes with
  | start => exact h
  | tick hcomes htick ih => exact tick_pairs (hcomes.tidy htidy) ih htick

end Running

/-- What a run of a tidy activity writes down is well paired, and no call is left under way once it
has come to its end or was stopped. -/
theorem Activity.run_pairs [ClientModel σ] {every : Nat} {selected : List (Fin n)}
    {a : Activity n α}
    (hordered : selected.Pairwise (· < ·)) (htidy : a.Tidy every selected (fun _ _ => True) [])
    (crew : Crew n) (alarm : Alarm) (fuel : Nat) (w : World σ n) :
    (a.run crew alarm fuel w).Pairs w := by
  have hrunning := Running.tidy_ofActivity hordered htidy
  obtain ⟨later, w', r', hcomes, -, hend⟩ :=
    Running.exists_comes crew alarm fuel w (Running.ofActivity a)
  have hpairs := hcomes.pairs hrunning (Pairs.refl w)
  rcases hend with hfuel | hhalt
  · rw [Activity.run, hfuel]
    exact ⟨_, hpairs⟩
  · exact Running.halt_pairs (hcomes.tidy hrunning) hpairs hhalt

end BotScript
