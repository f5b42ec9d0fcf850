/-!
# Watching tasks

A supervisor watches tasks in the order in which they were registered. A scan takes finished tasks
off the list and reports the first that failed; those behind it are left for the next scan. Tasks
that were aborted are no failures.

How a task ended is known only from its result, and whoever scans can read only so many results
before it has to pause. Once it can read no more, finished tasks are left on the list as if they
were not finished.

## Main definitions

* `Ending`: how a task ended.
* `Report`: what a supervisor reports.
* `Ending.report?`: what is reported about a task that ended in some way.
* `scanFrom`: one scan of the watched tasks.
* `Supervisor`: the watched tasks, with `register`, `unregister`, `tick` and `shutdown`.
-/

namespace BotScript

/-- How a task ended. A failure carries its message under the contexts it was put in,
outermost first. -/
inductive Ending where
  | ok
  | failed (chain : List String)
  | panicked
  | aborted
  deriving DecidableEq, Repr

/-- What a supervisor reports about a task, or about its own loop. -/
inductive Report where
  | failed (task : Nat) (chain : List String)
  | panicked (task : Nat)
  | loopAborted
  deriving DecidableEq, Repr

/-- The message of a report. -/
def Report.message : Report → String
  | failed task chain => "task #" ++ toString task ++ " failed: " ++ ": ".intercalate chain
  | panicked task => "task #" ++ toString task ++ " panicked"
  | loopAborted => "supervisor loop was aborted"

/-- What is reported about a task that ended in some way, if anything. -/
def Ending.report? (task : Nat) : Ending → Option Report
  | failed chain => some (.failed task chain)
  | panicked => some (.panicked task)
  | ok | aborted => none

/-- Scan the tasks of a list from a position on, with a number of results that can be read:
unfinished tasks stay, finished ones are removed, and the first failure ends the scan. Without a
read left, finished tasks stay as well. Gives what is reported, the tasks that stay, and the reads
that are left. -/
def scanFrom (ending : Nat → Option Ending) (reads i : Nat) (tasks : List Nat) :
    Except Report Unit × List Nat × Nat :=
  if hi : i < tasks.length then
    match ending tasks[i] with
    | none => scanFrom ending reads (i + 1) tasks
    | some e =>
      match reads with
      | 0 => scanFrom ending 0 (i + 1) tasks
      | reads + 1 =>
        -- The next task moves up to this position.
        match e.report? tasks[i] with
        | some r => (.error r, tasks.eraseIdx i, reads)
        | none => scanFrom ending reads i (tasks.eraseIdx i)
  else (.ok (), tasks, reads)
termination_by tasks.length - i
decreasing_by
  · omega
  · omega
  · rw [List.length_eraseIdx_of_lt hi]
    omega

/-- The tasks that are watched, in the order in which they were registered. -/
structure Supervisor where
  watched : List Nat
  deriving DecidableEq, Repr

namespace Supervisor

/-- A supervisor without tasks. -/
def empty : Supervisor := ⟨[]⟩

/-- Watch a task. -/
def register (s : Supervisor) (task : Nat) : Supervisor := ⟨s.watched ++ [task]⟩

/-- Whether a task is watched. -/
def watches (s : Supervisor) (task : Nat) : Bool := s.watched.contains task

/-- No longer watch a task. -/
def unregister (s : Supervisor) (task : Nat) : Supervisor := ⟨s.watched.erase task⟩

/-- Scan the watched tasks once, with a number of results that can be read. Gives also the reads
that are left. -/
def tick (ending : Nat → Option Ending) (reads : Nat) (s : Supervisor) :
    Except Report Unit × Supervisor × Nat :=
  let (result, watched, left) := scanFrom ending reads 0 s.watched
  (result, ⟨watched⟩, left)

/-- No longer watch any task. Gives the tasks that were watched, which are to be aborted. -/
def shutdown (s : Supervisor) : List Nat × Supervisor := (s.watched, empty)

end Supervisor

end BotScript
