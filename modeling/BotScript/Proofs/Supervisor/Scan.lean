import Mathlib.Data.List.Basic
import BotScript.Supervisor.Basic

/-!
# What one scan does

A scan takes off the list only tasks that have ended, keeps the others in their order, and reports
exactly the failures among those it takes off, of which there is one at most. A scan that can read
at least one result brings every failed task on the list closer to the front, unless it reports it.

The scan is a loop over a list that gets shorter on the way. It can be told in another way, as a
recursion over the list: the tasks before its position are those it has passed and kept.

## Main definitions

* `scan`: the recursion over the list.

## Main results

* `scanFrom_append`, `Supervisor.tick_eq`: the loop does what the recursion does.
* `scan_sublist`: what stays.
* `isSome_ending_of_scan`, `reports_scan`: what goes, and what is reported.
* `scan_advances`: a failed task is reported, or moves up.
-/

namespace BotScript

variable {ending : Nat → Option Ending} {reads task : Nat} {tasks : List Nat}

/-- Scan some tasks, the first one first. Gives what is reported, the tasks that stay, and the reads
that are left. -/
def scan (ending : Nat → Option Ending) : Nat → List Nat → Except Report Unit × List Nat × Nat
  | reads, [] => (.ok (), [], reads)
  | reads, task :: rest =>
    match ending task, reads with
    | some e, reads + 1 =>
      match e.report? task with
      | some r => (.error r, rest, reads)
      | none => scan ending reads rest
    | _, reads =>
      let (result, kept, left) := scan ending reads rest
      (result, task :: kept, left)

/-- What is reported about a task, if it has ended. -/
def reportOn (ending : Nat → Option Ending) (task : Nat) : Option Report :=
  (ending task).bind (·.report? task)

/-- What a scan reports, as a list. -/
def reportsOf : Except Report Unit → List Report
  | .ok _ => []
  | .error r => [r]

@[simp] theorem mem_reportsOf {result : Except Report Unit} {r : Report} :
    r ∈ reportsOf result ↔ result = .error r := by
  cases result <;> simp [reportsOf, eq_comm]

/-- The tasks of a list that are not on another one. -/
def leaving (before after : List Nat) : List Nat := before.filter (· ∉ after)

@[simp] theorem mem_leaving {before after : List Nat} :
    task ∈ leaving before after ↔ task ∈ before ∧ task ∉ after := by
  simp [leaving]

/-- The tasks that a scan keeps. -/
def stillWatched (ending : Nat → Option Ending) (reads : Nat) (tasks : List Nat) : List Nat :=
  (scan ending reads tasks).2.1

/-! ### One task after the other -/

/-- A task that has not ended, or whose result cannot be read, stays. -/
theorem scan_cons_skipped (h : ending task = none ∨ reads = 0) (rest : List Nat) :
    scan ending reads (task :: rest) =
      ((scan ending reads rest).1, task :: stillWatched ending reads rest,
        (scan ending reads rest).2.2) := by
  cases reads with
  | zero => cases he : ending task <;> simp [scan, stillWatched, he]
  | succ reads =>
    have hnone : ending task = none := h.resolve_right (Nat.succ_ne_zero reads)
    simp [scan, stillWatched, hnone]

theorem scan_cons_reported {e : Ending} {r : Report} (he : ending task = some e)
    (hr : e.report? task = some r) (reads : Nat) (rest : List Nat) :
    scan ending (reads + 1) (task :: rest) = (.error r, rest, reads) := by
  simp [scan, he, hr]

theorem scan_cons_swept {e : Ending} (he : ending task = some e) (hr : e.report? task = none)
    (reads : Nat) (rest : List Nat) :
    scan ending (reads + 1) (task :: rest) = scan ending reads rest := by
  simp [scan, he, hr]

/-- To prove something about all scans, go through what may come of the first task. -/
theorem scan_induction (ending : Nat → Option Ending) {motive : Nat → List Nat → Prop}
    (nil : ∀ reads, motive reads [])
    (skipped : ∀ reads task rest, ending task = none ∨ reads = 0 → motive reads rest →
      motive reads (task :: rest))
    (reported : ∀ reads task rest e r, ending task = some e → e.report? task = some r →
      motive (reads + 1) (task :: rest))
    (swept : ∀ reads task rest e, ending task = some e → e.report? task = none → motive reads rest →
      motive (reads + 1) (task :: rest))
    (reads : Nat) (tasks : List Nat) : motive reads tasks := by
  induction tasks generalizing reads with
  | nil => exact nil reads
  | cons task rest ih =>
    cases he : ending task with
    | none => exact skipped reads task rest (.inl he) (ih reads)
    | some e =>
      cases reads with
      | zero => exact skipped 0 task rest (.inr rfl) (ih 0)
      | succ reads =>
        cases hr : e.report? task with
        | none => exact swept reads task rest e he hr (ih reads)
        | some r => exact reported reads task rest e r he hr

/-! ### The loop -/

/-- The loop goes on behind tasks that it has kept as a scan of the others does. -/
theorem scanFrom_append (ending : Nat → Option Ending) (reads : Nat) (kept tasks : List Nat) :
    scanFrom ending reads kept.length (kept ++ tasks) =
      ((scan ending reads tasks).1, kept ++ stillWatched ending reads tasks,
        (scan ending reads tasks).2.2) := by
  induction reads, tasks using scan_induction ending generalizing kept with
  | nil reads =>
    rw [scanFrom, dif_neg (by simp)]
    rfl
  | skipped reads task rest h ih =>
    have hstays : scanFrom ending reads kept.length (kept ++ task :: rest) =
        scanFrom ending reads (kept ++ [task]).length (kept ++ [task] ++ rest) := by
      rw [List.append_assoc, List.length_append]
      rcases h with hrunning | rfl
      · simp [scanFrom.eq_1 ending reads kept.length, hrunning]
      · cases he : ending task <;> simp [scanFrom.eq_1 ending 0 kept.length, he]
    rw [hstays, ih, scan_cons_skipped h]
    simp [stillWatched, scan_cons_skipped h]
  | reported reads task rest e r he hr =>
    rw [scanFrom, dif_pos (by simp)]
    simp [stillWatched, scan_cons_reported he hr, he, hr, List.eraseIdx_append_of_length_le]
  | swept reads task rest e he hr ih =>
    rw [stillWatched, scan_cons_swept he hr, ← stillWatched, ← ih, scanFrom, dif_pos (by simp)]
    simp [he, hr, List.eraseIdx_append_of_length_le]

/-- A scan of the watched tasks, as a recursion. -/
theorem Supervisor.tick_eq (ending : Nat → Option Ending) (reads : Nat) (s : Supervisor) :
    s.tick ending reads =
      ((scan ending reads s.watched).1, ⟨stillWatched ending reads s.watched⟩,
        (scan ending reads s.watched).2.2) := by
  have hloop := scanFrom_append ending reads [] s.watched
  rw [List.length_nil, List.nil_append, List.nil_append] at hloop
  rw [tick, hloop]

/-! ### What stays and what goes -/

/-- What stays is in its old order. -/
theorem scan_sublist (ending : Nat → Option Ending) (reads : Nat) (tasks : List Nat) :
    (stillWatched ending reads tasks).Sublist tasks := by
  induction reads, tasks using scan_induction ending with
  | nil reads => simp [stillWatched, scan]
  | skipped reads task rest h ih =>
    rw [stillWatched, scan_cons_skipped h]
    exact ih.cons_cons task
  | reported reads task rest e r he hr =>
    rw [stillWatched, scan_cons_reported he hr]
    exact List.sublist_cons_self task rest
  | swept reads task rest e he hr ih =>
    rw [stillWatched, scan_cons_swept he hr]
    exact ih.cons task

/-- Only tasks that have ended go. -/
theorem isSome_ending_of_scan (hmem : task ∈ tasks)
    (hgone : task ∉ stillWatched ending reads tasks) :
    ∃ e, ending task = some e := by
  induction reads, tasks using scan_induction ending with
  | nil reads => cases hmem
  | skipped reads first rest h ih =>
    rw [stillWatched, scan_cons_skipped h] at hgone
    simp only [List.mem_cons, not_or] at hmem hgone
    exact ih (hmem.resolve_left hgone.1) hgone.2
  | reported reads first rest e r he hr =>
    rw [stillWatched, scan_cons_reported he hr] at hgone
    obtain rfl : task = first := (List.mem_cons.1 hmem).resolve_right hgone
    exact ⟨e, he⟩
  | swept reads first rest e he hr ih =>
    rw [stillWatched, scan_cons_swept he hr] at hgone
    rcases List.mem_cons.1 hmem with rfl | hrest
    · exact ⟨e, he⟩
    · exact ih hrest hgone

/-- The failures among the tasks that go are exactly what is reported. -/
theorem reports_scan (hnodup : tasks.Nodup) :
    (leaving tasks (stillWatched ending reads tasks)).filterMap (reportOn ending) =
      reportsOf (scan ending reads tasks).1 := by
  induction reads, tasks using scan_induction ending with
  | nil reads => simp [leaving, scan, reportsOf]
  | skipped reads first rest h ih =>
    obtain ⟨hfirst, hrest⟩ := List.nodup_cons.1 hnodup
    rw [stillWatched, scan_cons_skipped h]
    have hsame : leaving (first :: rest) (first :: stillWatched ending reads rest) =
        leaving rest (stillWatched ending reads rest) := by
      simp only [leaving, List.filter_cons, List.mem_cons, true_or, not_true_eq_false]
      refine List.filter_congr fun t ht => ?_
      have hne : t ≠ first := fun heq => hfirst (heq ▸ ht)
      simp [hne]
    simpa only [hsame] using ih hrest
  | reported reads first rest e r he hr =>
    obtain ⟨hfirst, -⟩ := List.nodup_cons.1 hnodup
    rw [stillWatched, scan_cons_reported he hr]
    -- The scan ends with the report, so nobody else goes.
    have hone : leaving (first :: rest) rest = [first] := by
      simp [leaving, hfirst]
    simp [hone, reportOn, he, hr, reportsOf]
  | swept reads first rest e he hr ih =>
    obtain ⟨hfirst, hrest⟩ := List.nodup_cons.1 hnodup
    rw [stillWatched, scan_cons_swept he hr]
    have hgone : first ∉ stillWatched ending reads rest :=
      fun hmem => hfirst ((scan_sublist ending reads rest).subset hmem)
    have hcons : leaving (first :: rest) (stillWatched ending reads rest) =
        first :: leaving rest (stillWatched ending reads rest) := by
      simp [leaving, hgone]
    have hnone : reportOn ending first = none := by simp [reportOn, he, hr]
    rw [show (scan ending reads rest).2.1 = stillWatched ending reads rest from rfl, hcons,
      List.filterMap_cons_none hnone]
    exact ih hrest

/-! ### Moving up -/

/-- Whoever stays on a list while others go does not move back. -/
theorem idxOf_le_of_sublist {after before : List Nat} (h : after.Sublist before)
    (hnodup : before.Nodup) (hmem : task ∈ after) : after.idxOf task ≤ before.idxOf task := by
  induction h with
  | slnil => cases hmem
  | cons first h ih =>
    obtain ⟨hfirst, hrest⟩ := List.nodup_cons.1 hnodup
    have hne : first ≠ task := fun heq => hfirst (heq ▸ h.subset hmem)
    rw [List.idxOf_cons_ne _ hne]
    exact Nat.le_succ_of_le (ih hrest hmem)
  | cons_cons first h ih =>
    obtain ⟨hfirst, hrest⟩ := List.nodup_cons.1 hnodup
    by_cases hne : first = task
    · simp [hne]
    · rw [List.idxOf_cons_ne _ hne, List.idxOf_cons_ne _ hne]
      exact Nat.succ_le_succ (ih hrest ((List.mem_cons.1 hmem).resolve_left (Ne.symm hne)))

/-- A scan that can read a result reports a failed task, or else takes off another one before it. -/
theorem scan_advances (hnodup : tasks.Nodup) (hmem : task ∈ tasks)
    (hfailed : (reportOn ending task).isSome) (hreads : reads ≠ 0) :
    task ∉ stillWatched ending reads tasks ∨ (stillWatched ending reads tasks).idxOf task <
      tasks.idxOf task := by
  induction reads, tasks using scan_induction ending with
  | nil reads => cases hmem
  | skipped reads first rest h ih =>
    obtain ⟨hfirst, hrest⟩ := List.nodup_cons.1 hnodup
    have hnone : ending first = none := h.resolve_right hreads
    -- The first task has not ended, so it is not the one that failed.
    have hne : task ≠ first := by
      rintro rfl
      simp [reportOn, hnone] at hfailed
    have hin : task ∈ rest := (List.mem_cons.1 hmem).resolve_left hne
    rw [stillWatched, scan_cons_skipped h]
    rcases ih hrest hin hreads with hgone | hlt
    · exact .inl (by simp [hne, hgone])
    · right
      simpa [List.idxOf_cons_ne _ (Ne.symm hne)] using hlt
  | reported reads first rest e r he hr =>
    obtain ⟨hfirst, -⟩ := List.nodup_cons.1 hnodup
    rw [stillWatched, scan_cons_reported he hr]
    rcases List.mem_cons.1 hmem with rfl | hin
    · exact .inl hfirst
    · have hne : first ≠ task := fun heq => hfirst (heq ▸ hin)
      exact .inr (by simp [List.idxOf_cons_ne _ hne])
  | swept reads first rest e he hr ih =>
    obtain ⟨hfirst, hrest⟩ := List.nodup_cons.1 hnodup
    have hne : first ≠ task := by
      rintro rfl
      simp [reportOn, he, hr] at hfailed
    have hin : task ∈ rest := (List.mem_cons.1 hmem).resolve_left (Ne.symm hne)
    rw [stillWatched, scan_cons_swept he hr, List.idxOf_cons_ne _ hne]
    -- The first task is gone, so whatever the rest of the scan does, the failed one is further up.
    by_cases hgone : task ∈ stillWatched ending reads rest
    · exact .inr (Nat.lt_succ_of_le
        (idxOf_le_of_sublist (scan_sublist ending reads rest) hrest hgone))
    · exact .inl hgone

end BotScript
