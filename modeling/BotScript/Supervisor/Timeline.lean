import BotScript.Supervisor.Basic

/-!
# Tasks on a clock

Tasks take turns, first come first served. They run only while somebody waits: then all tasks that
are due have their turn, and time passes to the next one that is. The supervisor may have a loop of
its own, which is a task too and scans the watched tasks at regular times.

An abort takes effect when the task has its next turn, which it is given at once if it has none.

In one turn only so much can be taken up: a wait that is over, or the result of a task. This holds
for the loop, and for whoever controls the supervisor by hand, whose turn goes on until the next
wait.

## Main definitions

* `Plan`: what a task does.
* `allowance`: how much can be taken up in one turn.
* `Timeline`: the tasks, the clock and the supervisor.
* `Timeline.spawn`, `Timeline.abort`: a task begins, or is told to stop.
* `Timeline.register`, `Timeline.unregister`, `Timeline.tick`, `Timeline.start`,
  `Timeline.shutdown`: the supervisor's controls.
* `Timeline.wait`, `Timeline.join`: time passes.
-/

namespace BotScript

/-- What a task does: after some milliseconds it ends, or never. -/
structure Plan where
  after : Nat
  ending : Option Ending
  deriving DecidableEq, Repr

/-- How many waits that are over and results of tasks can be taken up in one turn. -/
def allowance : Nat := 128

/-- Where a task stands. -/
inductive TaskStage where
  /-- It has not had a turn. -/
  | fresh
  | sleeping (due : Nat)
  /-- It has nothing left to do, but does not end. -/
  | stuck
  | ended (e : Ending)
  deriving DecidableEq, Repr

/-- A task. -/
structure Task where
  plan : Plan
  stage : TaskStage
  aborting : Bool
  deriving DecidableEq, Repr

/-- Where the loop of the supervisor stands. -/
inductive LoopStage where
  | notStarted
  /-- It has not had a turn. -/
  | fresh
  /-- It scans next at a time. -/
  | sleeping (due : Nat)
  | ended (r : Except Report Unit)

/-- Who can have a turn. -/
inductive Job where
  | task (id : Nat)
  | loop
  deriving DecidableEq, Repr

/-- What happened to a task: it ended by itself, or it was dropped. -/
structure TaskEvent where
  time : Nat
  task : Nat
  dropped : Bool
  deriving DecidableEq, Repr

/-- The line of an event. -/
def TaskEvent.render (e : TaskEvent) : String :=
  toString e.time ++ " #" ++ toString e.task ++ if e.dropped then " dropped" else " end"

/-- The tasks, the clock and the supervisor. Tasks are numbered in the order in which they began;
the newest event comes first. -/
structure Timeline where
  now : Nat
  /-- How many milliseconds pass between two scans of the loop. -/
  period : Nat
  tasks : List Task
  queue : List Job
  supervisor : Supervisor
  loop : LoopStage
  /-- How many results can be read by hand before the next wait. -/
  reads : Nat
  /-- Somebody may still wait for the loop. -/
  joinable : Bool
  closing : Bool
  events : List TaskEvent

namespace Timeline

/-- The beginning, without tasks. -/
def initial (period : Nat) : Timeline :=
  { now := 0, period, tasks := [], queue := [], supervisor := .empty, loop := .notStarted,
    reads := allowance, joinable := false, closing := false, events := [] }

/-- How a task ended, if it has. -/
def ending? (s : Timeline) (id : Nat) : Option Ending :=
  match s.tasks[id]? with
  | some ⟨_, .ended e, _⟩ => some e
  | _ => none

/-- Give somebody a turn, unless it is going to have one. -/
def enqueue (s : Timeline) (j : Job) : Timeline :=
  if s.queue.contains j then s else { s with queue := s.queue ++ [j] }

/-- A task begins. Its number is how many began before it. -/
def spawn (s : Timeline) (plan : Plan) : Timeline :=
  { s with tasks := s.tasks ++ [⟨plan, .fresh, false⟩], queue := s.queue ++ [.task s.tasks.length] }

/-- Tell a task to stop. -/
def abort (s : Timeline) (id : Nat) : Timeline :=
  match s.tasks[id]? with
  | none | some ⟨_, .ended _, _⟩ => s
  | some t => { s with tasks := s.tasks.set id { t with aborting := true } }.enqueue (.task id)

/-! ### The supervisor -/

/-- Watch a task. -/
def register (s : Timeline) (id : Nat) : Timeline :=
  { s with supervisor := s.supervisor.register id }

/-- Watch the newest task. -/
def registerNewest (s : Timeline) : Timeline := s.register (s.tasks.length - 1)

/-- No longer watch a task, and abort it unless it has ended. Tells whether it was watched. -/
def unregister (s : Timeline) (id : Nat) : Bool × Timeline :=
  if s.supervisor.watches id then
    (true, { s.abort id with supervisor := s.supervisor.unregister id })
  else (false, s)

/-- Scan the watched tasks once, by hand. -/
def tick (s : Timeline) : Except Report Unit × Timeline :=
  let (result, supervisor, reads) := s.supervisor.tick s.ending? s.reads
  (result, { s with supervisor, reads })

/-- Start the loop of the supervisor. Tells whether it was not started before. -/
def start (s : Timeline) : Bool × Timeline :=
  match s.loop with
  | .notStarted => (true, { s with loop := .fresh, joinable := true, queue := s.queue ++ [.loop] })
  | _ => (false, s)

/-- End the loop, and abort all watched tasks. -/
def shutdown (s : Timeline) : Timeline :=
  let (tasks, supervisor) := s.supervisor.shutdown
  let s := { s with closing := true, supervisor }
  let s := match s.loop with
    | .sleeping _ => s.enqueue .loop
    | _ => s
  tasks.foldl abort s

/-! ### Turns -/

/-- A task ends, by itself or because it was told to. -/
def finish (s : Timeline) (id : Nat) (t : Task) (e : Ending) : Timeline :=
  { s with
    tasks := s.tasks.set id { t with stage := .ended e }
    events := ⟨s.now, id, e = .aborted⟩ :: s.events }

/-- The turn of a task that has waited as long as it had to. -/
def complete (s : Timeline) (id : Nat) (t : Task) : Timeline :=
  match t.plan.ending with
  | some e => s.finish id t e
  | none => { s with tasks := s.tasks.set id { t with stage := .stuck } }

/-- The turn of a task. -/
def taskTurn (s : Timeline) (id : Nat) : Timeline :=
  match s.tasks[id]? with
  | none | some ⟨_, .ended _, _⟩ => s
  | some t =>
    if t.aborting then s.finish id t .aborted
    else
      match t.stage with
      | .fresh =>
        if t.plan.after = 0 then s.complete id t
        else { s with tasks := s.tasks.set id { t with stage := .sleeping (s.now + t.plan.after) } }
      | .sleeping due => if due ≤ s.now then s.complete id t else s
      | .stuck | .ended _ => s

/-- The loop scans the watched tasks, having taken up the wait before. The first failure ends it. -/
def loopScan (s : Timeline) : Timeline :=
  match s.supervisor.tick s.ending? (allowance - 1) with
  | (.ok _, supervisor, _) => { s with supervisor, loop := .sleeping (s.now + s.period) }
  | (.error r, supervisor, _) => { s with supervisor, loop := .ended (.error r) }

/-- The turn of the loop. It cannot scan without a pause between two scans. -/
def loopTurn (s : Timeline) : Timeline :=
  match s.loop with
  | .notStarted | .ended _ => s
  | .fresh =>
    if s.period = 0 then { s with loop := .ended (.error .loopAborted) }
    else if s.closing then { s with loop := .ended (.ok ()) }
    else s.loopScan
  | .sleeping due =>
    if s.closing then { s with loop := .ended (.ok ()) }
    else if due ≤ s.now then s.loopScan
    else s

/-- A turn. -/
def turn (s : Timeline) : Job → Timeline
  | .task id => s.taskTurn id
  | .loop => s.loopTurn

/-- Everybody in the queue has a turn. -/
def runQueue (s : Timeline) : Timeline := s.queue.foldl turn { s with queue := [] }

/-! ### Time -/

/-- When somebody has a turn by itself. -/
def dues (s : Timeline) : List (Nat × Job) :=
  let tasks := s.tasks.zipIdx.filterMap fun (t, id) =>
    match t.stage with
    | .sleeping due => some (due, Job.task id)
    | _ => none
  match s.loop with
  | .sleeping due => tasks ++ [(due, .loop)]
  | _ => tasks

/-- The next time at which somebody has a turn by itself. -/
def nextDue? (s : Timeline) : Option Nat := (s.dues.map (·.1)).min?

/-- All who are due have their turn, after those in the queue. -/
def runDue (s : Timeline) : Timeline :=
  let due := s.dues.filterMap fun (t, j) => if t ≤ s.now then some j else none
  (due.foldl enqueue s).runQueue

/-- Whether the loop has ended. -/
def loopEnded (s : Timeline) : Bool :=
  match s.loop with
  | .ended _ => true
  | _ => false

/-- Let time pass till a moment, or until a condition holds after some turns. Each round but the
last takes time, so the number of milliseconds left bounds the number of rounds. -/
def passUntil (stop : Timeline → Bool) (till : Nat) : Nat → Timeline → Timeline
  | 0, s => s
  | fuel + 1, s =>
    let s := s.runDue
    if stop s then s
    else
      match s.nextDue? with
      | some due =>
        if due < till then passUntil stop till fuel { s with now := due }
        else { s with now := till }
      | none => { s with now := till }

/-- After a wait the turn begins anew, with the wait taken up. -/
def resume (s : Timeline) : Timeline := { s with reads := allowance - 1 }

/-- Wait for some milliseconds. Not waiting gives nobody a turn. -/
def wait (s : Timeline) (ms : Nat) : Timeline :=
  if ms = 0 then s else (passUntil (fun _ => false) (s.now + ms) (ms + 1) s).resume

/-- What comes of waiting for the loop. -/
inductive Joined where
  | ended (r : Except Report Unit)
  | timeout

/-- Wait for the loop to end, for some milliseconds at most. Only one can wait for it: after that,
and before it is started, there is nothing to wait for. -/
def join (s : Timeline) (ms : Nat) : Joined × Timeline :=
  if s.joinable then
    let s := { s with joinable := false }
    let s := if s.loopEnded ∨ ms = 0 then { s with reads := s.reads - 1 }
      else (passUntil loopEnded (s.now + ms) (ms + 1) s).resume
    match s.loop with
    | .ended r => (.ended r, s)
    | _ => (.timeout, s)
  else (.ended (.ok ()), s)

/-- What happened, oldest first. -/
def history (s : Timeline) : List TaskEvent := s.events.reverse

/-- Forget what happened. -/
def forget (s : Timeline) : Timeline := { s with events := [] }

end Timeline

end BotScript
