import BotScript.Proofs.Supervisor.Ledger

/-!
# What a scan leaves

A scan goes through the watched tasks in order. As long as none of those that have ended failed, it
leaves the others behind it and uses up one read for each that it takes off. So its outcome depends
on where the list is cut: at the first failure, or where the last read is used up. In either case
what lies behind the cut stays untouched, finished tasks included.

## Main definitions

* `unfinished`, `finishedCount`: the tasks that still run, and how many do not.
* `Unfailing`: nobody has failed or panicked.

## Main results

* `scan_append`: the part before the cut.
* `Supervisor.tick_sweeps`: the outcome of a scan.
-/

namespace BotScript

variable {ending : Nat → Option Ending} {reads task : Nat} {tasks before after : List Nat}

/-- The tasks of a list that still run, in their order. -/
def unfinished (ending : Nat → Option Ending) (tasks : List Nat) : List Nat :=
  tasks.filter fun task => (ending task).isNone

/-- How many tasks of a list have ended. -/
def finishedCount (ending : Nat → Option Ending) (tasks : List Nat) : Nat :=
  tasks.countP fun task => (ending task).isSome

/-- Whoever has ended did so without a failure, or was aborted. -/
def Unfailing (ending : Nat → Option Ending) (tasks : List Nat) : Prop :=
  ∀ task ∈ tasks, ∀ e, ending task = some e → e = .ok ∨ e = .aborted

theorem Unfailing.report? (h : Unfailing ending (task :: tasks)) {e : Ending}
    (he : ending task = some e) :
    e.report? task = none := by
  rcases h task List.mem_cons_self e he with rfl | rfl <;> rfl

theorem Unfailing.tail (h : Unfailing ending (task :: tasks)) : Unfailing ending tasks :=
  fun other hmem => h other (List.mem_cons_of_mem task hmem)

/-- Without a read left, everybody stays. -/
theorem scan_without_reads (ending : Nat → Option Ending) (tasks : List Nat) :
    scan ending 0 tasks = (.ok (), tasks, 0) := by
  induction tasks with
  | nil => rfl
  | cons task rest ih => rw [scan_cons_skipped (.inr rfl), stillWatched, ih]

/-- A part of the list without failures is swept: those who run stay, and the scan goes on behind it
with a read less for each of the others. -/
theorem scan_append (h : Unfailing ending before) (hreads : finishedCount ending before ≤ reads)
    (after : List Nat) :
    scan ending reads (before ++ after) =
      ((scan ending (reads - finishedCount ending before) after).1,
        unfinished ending before ++ stillWatched ending (reads - finishedCount ending before) after,
        (scan ending (reads - finishedCount ending before) after).2.2) := by
  induction before generalizing reads with
  | nil => rfl
  | cons task rest ih =>
    cases he : ending task with
    | none =>
      have hcount : finishedCount ending (task :: rest) = finishedCount ending rest := by
        simp [finishedCount, he]
      have hstays : unfinished ending (task :: rest) = task :: unfinished ending rest := by
        simp [unfinished, he]
      rw [hcount] at hreads ⊢
      rw [List.cons_append, scan_cons_skipped (.inl he), stillWatched, ih h.tail hreads, hstays]
      rfl
    | some e =>
      have hcount : finishedCount ending (task :: rest) = finishedCount ending rest + 1 := by
        simp [finishedCount, he]
      have hgoes : unfinished ending (task :: rest) = unfinished ending rest := by
        simp [unfinished, he]
      rw [hcount] at hreads ⊢
      -- The task that goes has taken one of the reads.
      obtain ⟨left, rfl⟩ : ∃ left, reads = left + 1 := ⟨reads - 1, by omega⟩
      rw [List.cons_append, scan_cons_swept he (h.report? he), ih h.tail (by omega), hgoes,
        Nat.add_sub_add_right]

namespace Supervisor

/-- The outcome of a scan. If nobody failed and every result can be read, exactly the running tasks
stay, in their order. Otherwise the scan is cut short. At the first task that failed or panicked, it
reports this one, with its failure, and keeps the running tasks before it and everybody behind it.
Where the last read is used up before that, it reports nothing, and also keeps the running tasks
before and everybody behind. -/
theorem tick_sweeps (ending : Nat → Option Ending) (reads : Nat) (s : Supervisor) :
    (Unfailing ending s.watched → finishedCount ending s.watched ≤ reads →
      s.tick ending reads =
        (.ok (), ⟨unfinished ending s.watched⟩, reads - finishedCount ending s.watched)) ∧
    (∀ before task after, s.watched = before ++ task :: after → Unfailing ending before →
      finishedCount ending before < reads →
      (∀ chain, ending task = some (.failed chain) →
        s.tick ending reads = (.error (.failed task chain), ⟨unfinished ending before ++ after⟩,
          reads - finishedCount ending before - 1)) ∧
      (ending task = some .panicked →
        s.tick ending reads = (.error (.panicked task), ⟨unfinished ending before ++ after⟩,
          reads - finishedCount ending before - 1))) ∧
    (∀ before after, s.watched = before ++ after → Unfailing ending before →
      finishedCount ending before = reads →
      s.tick ending reads = (.ok (), ⟨unfinished ending before ++ after⟩, 0)) := by
  refine ⟨?_, ?_, ?_⟩
  · intro hfine hreads
    have hall := scan_append hfine hreads []
    rw [List.append_nil] at hall
    simp [tick_eq, hall, scan, stillWatched]
  · intro before task after hsplit hfine hreads
    -- Behind the part without failures there is still a read for the one that failed.
    obtain ⟨left, hleft⟩ : ∃ left, reads - finishedCount ending before = left + 1 :=
      ⟨reads - finishedCount ending before - 1, by omega⟩
    have hbefore := scan_append hfine (Nat.le_of_lt hreads) (task :: after)
    rw [← hsplit, hleft] at hbefore
    constructor
    · intro chain hfailed
      simp [tick_eq, hbefore, stillWatched, scan_cons_reported hfailed rfl, hleft]
    · intro hpanicked
      simp [tick_eq, hbefore, stillWatched, scan_cons_reported hpanicked rfl, hleft]
  · intro before after hsplit hfine hused
    have hbefore := scan_append hfine (Nat.le_of_eq hused) after
    rw [← hsplit, hused, Nat.sub_self] at hbefore
    simp [tick_eq, hbefore, stillWatched, scan_without_reads]

/-! ### Examples -/

/-- Six tasks: one that went well, one that runs, one that was aborted, one that failed, another
that went well, and another that runs. -/
def mixed (task : Nat) : Option Ending :=
  [some .ok, none, some .aborted, some (.failed ["no"]), some .ok, none][task]?.join

/-- The six tasks with reads to spare, without the failure, and with a single read. -/
theorem mixed_swept :
    tick mixed 127 ⟨[0, 1, 2, 3, 4, 5]⟩ = (.error (.failed 3 ["no"]), ⟨[1, 4, 5]⟩, 124) ∧
    tick mixed 127 ⟨[0, 1, 2, 4, 5]⟩ = (.ok (), ⟨[1, 5]⟩, 124) ∧
    tick mixed 1 ⟨[0, 1, 2, 3, 4, 5]⟩ = (.ok (), ⟨[1, 2, 3, 4, 5]⟩, 0) := by
  refine ⟨?_, ?_, ?_⟩
  · exact ((tick_sweeps mixed 127 ⟨[0, 1, 2, 3, 4, 5]⟩).2.1 [0, 1, 2] 3 [4, 5] rfl
      (by simp [Unfailing, mixed]) (by decide)).1 ["no"] rfl
  · exact (tick_sweeps mixed 127 ⟨[0, 1, 2, 4, 5]⟩).1 (by simp [Unfailing, mixed]) (by decide)
  · exact (tick_sweeps mixed 1 ⟨[0, 1, 2, 3, 4, 5]⟩).2.2 [0] [1, 2, 3, 4, 5] rfl
      (by simp [Unfailing, mixed]) rfl

end Supervisor

/-- In a crowd, tasks that went well stay on the list after a scan that reports nothing: all have
ended, but not every result could be read. -/
theorem Timeline.finished_crowd_stays :
    let s := (watching (List.replicate 130 ⟨0, some .ok⟩)).wait 5
    (∀ task ∈ s.watched, s.ending? task = some .ok) ∧ s.tick.1 = .ok () ∧
      s.tick.2.watched = [127, 128, 129] := by
  decide +kernel

end BotScript
