import BotScript.Proofs.Supervisor.Scan
import BotScript.Supervisor.Timeline

/-!
# What can happen to watched tasks

What is done to the supervisor, by hand or by its loop, and what the tasks do by themselves come in
any order. A course is any such order. It does not depend on how turns are given: tasks may end
whenever they like, and a scan may be able to read any number of results. A task that ends while a
scan goes on counts as having ended before the scan if the scan had not come to it yet, and after it
otherwise.

What happens on the clock when somebody waits is one such course.

## Main definitions

* `Timeline.Move`, `Timeline.Step`: one thing that happens.
* `Timeline.Departure`: a task left the watched ones.
* `Timeline.Course`: what happened from one moment to another, and who left on the way.

## Main results

* `Timeline.Step.frame`, `Timeline.Course.frame`: what has happened to a task stays so.
* `Timeline.course_tick`: a scan by hand is a course.
* `Timeline.reaches_wait`, `Timeline.reaches_join`: waiting is a course in which nobody
  is registered.
-/

namespace BotScript

/-- How a task ended, if it has. -/
def Task.ending? (t : Task) : Option Ending :=
  match t.stage with
  | .ended e => some e
  | _ => none

namespace Timeline

variable {s s' s'' : Timeline} {task id : Nat}

/-- The watched tasks, in the order in which they were registered. -/
def watched (s : Timeline) : List Nat := s.supervisor.watched

/-- A task was told to stop. -/
def Aborted (s : Timeline) (id : Nat) : Prop := ∃ t, s.tasks[id]? = some t ∧ t.aborting = true

/-! ### Changes that do not matter -/

/-- A change that leaves the watched tasks as they are, ends no task and takes back no abort. -/
structure Quiet (s s' : Timeline) : Prop where
  supervisor : s'.supervisor = s.supervisor
  ending : ∀ id, s'.ending? id = s.ending? id
  length : s.tasks.length ≤ s'.tasks.length
  aborted : ∀ id, s.Aborted id → s'.Aborted id

namespace Quiet

theorem refl (s : Timeline) : Quiet s s := ⟨rfl, fun _ => rfl, Nat.le_refl _, fun _ h => h⟩

theorem trans (h : Quiet s s') (h' : Quiet s' s'') : Quiet s s'' :=
  ⟨h'.supervisor.trans h.supervisor, fun id => (h'.ending id).trans (h.ending id),
    Nat.le_trans h.length h'.length, fun id hid => h'.aborted id (h.aborted id hid)⟩

/-- The clock, the turns and the loop do not matter. -/
theorem of_eq (hsupervisor : s'.supervisor = s.supervisor) (htasks : s'.tasks = s.tasks) :
    Quiet s s' := by
  refine ⟨hsupervisor, ?_, ?_, ?_⟩
  · intro id
    simp [ending?, htasks]
  · simp [htasks]
  · intro id hid
    simpa [Aborted, htasks] using hid

end Quiet

/-! ### One task changes -/

theorem ending?_eq (s : Timeline) (id : Nat) : s.ending? id = s.tasks[id]?.bind Task.ending? := by
  unfold ending?
  cases s.tasks[id]? with
  | none => rfl
  | some t =>
    obtain ⟨plan, stage, aborting⟩ := t
    cases stage <;> rfl

theorem lt_of_getElem? {t : Task} (h : s.tasks[id]? = some t) : id < s.tasks.length :=
  (List.getElem?_eq_some_iff.1 h).1

/-- A task that has not ended goes on, and remembers that it was told to stop. -/
theorem quiet_set {t t' : Task} (h : s.tasks[id]? = some t) (hending : t'.ending? = t.ending?)
    (haborting : t.aborting = true → t'.aborting = true) :
    Quiet s { s with tasks := s.tasks.set id t' } := by
  have hlt := lt_of_getElem? h
  refine ⟨rfl, ?_, by simp, ?_⟩
  · intro j
    by_cases hj : id = j
    · subst hj
      rw [ending?_eq, ending?_eq, h, List.getElem?_set_self hlt]
      exact hending
    · simp [ending?_eq, hj]
  · rintro j ⟨u, hu, hstop⟩
    by_cases hj : id = j
    · subst hj
      obtain rfl : t = u := Option.some.inj (h.symm.trans hu)
      exact ⟨t', by simp [hlt], haborting hstop⟩
    · exact ⟨u, by simpa [hj] using hu, hstop⟩

theorem quiet_enqueue (s : Timeline) (j : Job) : Quiet s (s.enqueue j) := by
  unfold enqueue
  split
  · exact .refl s
  · exact .of_eq rfl rfl

theorem quiet_foldl_enqueue (jobs : List Job) (s : Timeline) : Quiet s (jobs.foldl enqueue s) := by
  induction jobs generalizing s with
  | nil => exact .refl s
  | cons j rest ih => exact (quiet_enqueue s j).trans (ih _)

theorem quiet_spawn (s : Timeline) (plan : Plan) : Quiet s (s.spawn plan) := by
  refine ⟨rfl, ?_, by simp [spawn], ?_⟩
  · intro id
    simp only [ending?_eq, spawn, List.getElem?_append]
    split
    · rfl
    · rename_i hge
      rw [List.getElem?_eq_none (Nat.le_of_not_lt hge)]
      -- The new task has not ended, and others do not exist.
      cases id - s.tasks.length <;> simp [Task.ending?]
  · rintro id ⟨t, ht, hstop⟩
    exact ⟨t, by simpa [spawn, List.getElem?_append, lt_of_getElem? ht] using ht, hstop⟩

theorem quiet_start (s : Timeline) : Quiet s s.start.2 := by
  unfold start
  split
  · exact .of_eq rfl rfl
  · exact .refl s

theorem abort_eq (s : Timeline) (id : Nat) :
    s.abort id = s ∧ (s.tasks[id]? = none ∨ s.ending? id ≠ none) ∨
      ∃ t, s.tasks[id]? = some t ∧ t.ending? = none ∧
        s.abort id = { s with tasks := s.tasks.set id { t with aborting := true } }.enqueue
        (.task id) := by
  unfold abort
  split
  · rename_i hnone
    exact .inl ⟨rfl, .inl hnone⟩
  · rename_i plan e aborting ht
    exact .inl ⟨rfl, .inr (by simp [ending?, ht])⟩
  · rename_i t hne ht
    refine .inr ⟨t, ht, ?_, rfl⟩
    obtain ⟨plan, stage, aborting⟩ := t
    cases stage with
    | ended e => exact absurd rfl (hne plan e aborting)
    | fresh | sleeping due | stuck => rfl

theorem quiet_abort (s : Timeline) (id : Nat) : Quiet s (s.abort id) := by
  rcases abort_eq s id with ⟨heq, -⟩ | ⟨t, ht, -, heq⟩
  · rw [heq]
    exact .refl s
  · rw [heq]
    have hset : Quiet s { s with tasks := s.tasks.set id { t with aborting := true } } :=
      quiet_set ht rfl fun _ => rfl
    exact hset.trans (quiet_enqueue _ _)

/-- A task that is told to stop has ended already, or knows. -/
theorem aborted_abort (hlt : id < s.tasks.length) (hending : s.ending? id = none) :
    (s.abort id).Aborted id := by
  rcases abort_eq s id with ⟨-, hnone | hended⟩ | ⟨t, ht, -, heq⟩
  · rw [List.getElem?_eq_none_iff] at hnone
    omega
  · exact absurd hending hended
  · rw [heq]
    refine (quiet_enqueue _ _).aborted id ⟨{ t with aborting := true }, ?_, rfl⟩
    simp [hlt]

theorem quiet_foldl_abort (tasks : List Nat) (s : Timeline) : Quiet s (tasks.foldl abort s) := by
  induction tasks generalizing s with
  | nil => exact .refl s
  | cons id rest ih => exact (quiet_abort s id).trans (ih _)

theorem aborted_foldl_abort {tasks : List Nat} (hmem : id ∈ tasks) (hlt : id < s.tasks.length)
    (hending : s.ending? id = none) : (tasks.foldl abort s).Aborted id := by
  induction tasks generalizing s with
  | nil => cases hmem
  | cons first rest ih =>
    rcases List.mem_cons.1 hmem with rfl | hrest
    · exact (quiet_foldl_abort rest _).aborted id (aborted_abort hlt hending)
    · have hquiet := quiet_abort s first
      exact ih hrest (Nat.lt_of_lt_of_le hlt hquiet.length) ((hquiet.ending id).trans hending)

/-- A shutdown empties the list of watched tasks, and otherwise only tells them to stop. -/
theorem shutdown_eq (s : Timeline) :
    ∃ s₀, Quiet { s with supervisor := .empty } s₀ ∧ s.shutdown = s.watched.foldl abort s₀ := by
  refine ⟨_, ?_, rfl⟩
  dsimp only [Supervisor.shutdown]
  split
  · have hclosing : Quiet { s with supervisor := .empty }
        { s with closing := true, supervisor := .empty } := .of_eq rfl rfl
    exact hclosing.trans (quiet_enqueue _ _)
  · exact .of_eq rfl rfl

/-! ### Steps -/

/-- What can happen: somebody controls the supervisor, a task ends, or something else happens. A
scan tells how many results could be read, and what came of it. -/
inductive Move where
  | register (task : Nat)
  | unregister (task : Nat)
  | tick (reads : Nat) (result : Except Report Unit)
  | shutdown
  | finish (task : Nat) (e : Ending)
  | pass

namespace Move

/-- The task that comes to be watched. -/
def registered? : Move → Option Nat
  | register task => some task
  | _ => none

/-- What is reported. -/
def reports : Move → List Report
  | tick _ result => reportsOf result
  | _ => []

/-- A scan that could read at least one result. -/
def isAlert : Move → Bool
  | tick reads _ => reads ≠ 0
  | _ => false

end Move

/-- One thing happens. Only tasks that exist are registered, and only tasks that have
not ended end. -/
inductive Step : Timeline → Move → Timeline → Prop where
  | register (s : Timeline) {task : Nat} (h : task < s.tasks.length) :
      Step s (.register task) (s.register task)
  | unregister (s : Timeline) (task : Nat) : Step s (.unregister task) (s.unregister task).2
  | tick (s : Timeline) (reads : Nat) :
      Step s (.tick reads (s.supervisor.tick s.ending? reads).1)
        { s with supervisor := (s.supervisor.tick s.ending? reads).2.1 }
  | shutdown (s : Timeline) : Step s .shutdown s.shutdown
  | finish (s : Timeline) {id : Nat} {t : Task} (e : Ending) (ht : s.tasks[id]? = some t)
      (h : s.ending? id = none) : Step s (.finish id e) (s.finish id t e)
  | pass {s s' : Timeline} (h : Quiet s s') : Step s .pass s'

/-- What a task ends with does not change other tasks, nor what it was told. -/
theorem finish_keeps {t : Task} (e : Ending) (ht : s.tasks[id]? = some t) :
    (∀ j, j ≠ id → (s.finish id t e).ending? j = s.ending? j) ∧
      ∀ j, s.Aborted j → (s.finish id t e).Aborted j := by
  have hlt := lt_of_getElem? ht
  constructor
  · intro j hj
    simp [ending?_eq, finish, Ne.symm hj]
  · rintro j ⟨u, hu, hstop⟩
    by_cases hj : id = j
    · subst hj
      obtain rfl : t = u := Option.some.inj (ht.symm.trans hu)
      exact ⟨{ t with stage := .ended e }, by simp [finish, hlt], hstop⟩
    · exact ⟨u, by simpa [finish, hj] using hu, hstop⟩

/-- All of a step but what it does to the watched tasks: nothing that happened to a task
is undone. -/
theorem Step.frame {m : Move} (h : Step s m s') :
    (∀ task e, s.ending? task = some e → s'.ending? task = some e) ∧
      s.tasks.length ≤ s'.tasks.length ∧ ∀ task, s.Aborted task → s'.Aborted task := by
  cases h with
  | register _ | tick reads => exact ⟨fun _ _ he => he, Nat.le_refl _, fun _ ha => ha⟩
  | unregister task =>
    unfold Timeline.unregister
    split
    · have hquiet := quiet_abort s task
      exact ⟨fun j _ he => (hquiet.ending j).trans he, hquiet.length, hquiet.aborted⟩
    · exact ⟨fun _ _ he => he, Nat.le_refl _, fun _ ha => ha⟩
  | shutdown =>
    obtain ⟨s₀, hs₀, heq⟩ := shutdown_eq s
    rw [heq]
    have hquiet := hs₀.trans (quiet_foldl_abort s.watched s₀)
    exact ⟨fun j _ he => (hquiet.ending j).trans he, hquiet.length, hquiet.aborted⟩
  | @finish id t e ht hnone =>
    obtain ⟨hothers, haborted⟩ := finish_keeps e ht
    refine ⟨?_, by simp [Timeline.finish], haborted⟩
    intro j e' he
    -- The task that ends had not ended before.
    have hj : j ≠ id := by
      rintro rfl
      simp [hnone] at he
    exact (hothers j hj).trans he
  | pass hquiet => exact ⟨fun j _ he => (hquiet.ending j).trans he, hquiet.length, hquiet.aborted⟩

/-! ### Courses -/

/-- A task is no longer watched: by which move, and how it had ended before, if it had. -/
structure Departure where
  task : Nat
  cause : Move
  ending : Option Ending

/-- Who leaves when one thing happens. -/
def departures (s : Timeline) (m : Move) (s' : Timeline) : List Departure :=
  (leaving s.watched s'.watched).map fun task => ⟨task, m, s.ending? task⟩

/-- What happened from one moment to another, and who left on the way, both in order. -/
inductive Course (s : Timeline) : List Move → List Departure → Timeline → Prop where
  | refl : Course s [] [] s
  | step {moves : List Move} {gone : List Departure} {s' s'' : Timeline} {m : Move}
      (h : Course s moves gone s') (hstep : Step s' m s'') :
      Course s (moves ++ [m]) (gone ++ departures s' m s'') s''

/-- The tasks that were registered, in order. -/
def registered (moves : List Move) : List Nat := moves.filterMap Move.registered?

/-- What was reported, in order. -/
def reports (moves : List Move) : List Report := moves.flatMap Move.reports

/-- How many scans could read at least one result. -/
def alertTicks (moves : List Move) : Nat := moves.countP Move.isAlert

namespace Course

variable {moves more : List Move} {gone gone' : List Departure}

theorem trans (h : Course s moves gone s') (h' : Course s' more gone' s'') :
    Course s (moves ++ more) (gone ++ gone') s'' := by
  induction h' with
  | refl => simpa using h
  | step _ hstep ih => simpa only [List.append_assoc] using ih.step hstep

theorem single {m : Move} (h : Step s m s') : Course s [m] (departures s m s') s' :=
  refl.step h

/-- Nothing that happened to a task is undone. -/
theorem frame (h : Course s moves gone s') :
    (∀ task e, s.ending? task = some e → s'.ending? task = some e) ∧
      s.tasks.length ≤ s'.tasks.length ∧ ∀ task, s.Aborted task → s'.Aborted task := by
  induction h with
  | refl => exact ⟨fun _ _ he => he, Nat.le_refl _, fun _ ha => ha⟩
  | step _ hstep ih =>
    obtain ⟨hending, hlength, haborted⟩ := hstep.frame
    exact ⟨fun j e he => hending j e (ih.1 j e he), Nat.le_trans ih.2.1 hlength,
      fun j ha => haborted j (ih.2.2 j ha)⟩

end Course

/-- A scan by hand is a scan with the reads that are left, after which less can be read. -/
theorem course_tick (s : Timeline) :
    ∃ gone, Course s [.tick s.reads s.tick.1, .pass] gone s.tick.2 :=
  ⟨_, (Course.single (.tick s s.reads)).step (.pass (.of_eq rfl rfl))⟩

/-! ### Waiting -/

/-- One moment comes to another without anybody being registered. -/
def Reaches (s s' : Timeline) : Prop := ∃ moves gone, Course s moves gone s' ∧ registered moves = []

namespace Reaches

theorem refl (s : Timeline) : Reaches s s := ⟨[], [], .refl, rfl⟩

theorem trans (h : Reaches s s') (h' : Reaches s' s'') : Reaches s s'' := by
  obtain ⟨moves, gone, hcourse, hnone⟩ := h
  obtain ⟨more, gone', hcourse', hnone'⟩ := h'
  refine ⟨moves ++ more, gone ++ gone', hcourse.trans hcourse', ?_⟩
  rw [registered] at hnone hnone' ⊢
  rw [List.filterMap_append, hnone, hnone', List.append_nil]

theorem of_step {m : Move} (h : Step s m s') (hm : m.registered? = none) : Reaches s s' :=
  ⟨[m], _, .single h, by simp [registered, hm]⟩

theorem of_quiet (h : Quiet s s') : Reaches s s' := of_step (.pass h) rfl

end Reaches

theorem reaches_complete {t : Task} (ht : s.tasks[id]? = some t) (h : t.ending? = none) :
    Reaches s (s.complete id t) := by
  unfold complete
  split
  · exact .of_step (.finish s _ ht (by simp [ending?_eq, ht, h])) rfl
  · exact .of_quiet (quiet_set ht h.symm fun hstop => hstop)

theorem reaches_taskTurn (s : Timeline) (id : Nat) : Reaches s (s.taskTurn id) := by
  unfold taskTurn
  split
  · exact .refl s
  · exact .refl s
  · rename_i t hne ht
    have hnone : t.ending? = none := by
      obtain ⟨plan, stage, aborting⟩ := t
      cases stage with
      | ended e => exact absurd rfl (hne plan e aborting)
      | fresh | sleeping due | stuck => rfl
    split
    · exact .of_step (.finish s _ ht (by simp [ending?_eq, ht, hnone])) rfl
    · split
      · split
        · exact reaches_complete ht hnone
        · exact .of_quiet (quiet_set ht hnone.symm fun hstop => hstop)
      · split
        · exact reaches_complete ht hnone
        · exact .refl s
      · exact .refl s
      · exact .refl s

/-- A scan by the loop is a scan, after which the loop rests or ends. -/
theorem reaches_loopScan (s : Timeline) : Reaches s s.loopScan := by
  refine (Reaches.of_step (.tick s (allowance - 1)) rfl).trans (.of_quiet ?_)
  unfold loopScan
  split
  · rename_i heq
    rw [heq]
    exact .of_eq rfl rfl
  · rename_i heq
    rw [heq]
    exact .of_eq rfl rfl

theorem reaches_loopTurn (s : Timeline) : Reaches s s.loopTurn := by
  have hended : ∀ r, Reaches s { s with loop := .ended r } := fun r => .of_quiet (.of_eq rfl rfl)
  unfold loopTurn
  split
  · exact .refl s
  · exact .refl s
  · split
    · exact hended _
    · split
      · exact hended _
      · exact reaches_loopScan s
  · split
    · exact hended _
    · split
      · exact reaches_loopScan s
      · exact .refl s

theorem reaches_foldl_turn (jobs : List Job) (s : Timeline) : Reaches s (jobs.foldl turn s) := by
  induction jobs generalizing s with
  | nil => exact .refl s
  | cons j rest ih =>
    have hturn : Reaches s (s.turn j) := by
      cases j with
      | task id => exact reaches_taskTurn s id
      | loop => exact reaches_loopTurn s
    exact hturn.trans (ih _)

theorem reaches_runQueue (s : Timeline) : Reaches s s.runQueue := by
  have hempty : Reaches s { s with queue := [] } := .of_quiet (.of_eq rfl rfl)
  exact hempty.trans (reaches_foldl_turn s.queue _)

theorem reaches_runDue (s : Timeline) : Reaches s s.runDue :=
  (Reaches.of_quiet (quiet_foldl_enqueue _ s)).trans (reaches_runQueue _)

theorem reaches_passUntil (stop : Timeline → Bool) (till fuel : Nat) (s : Timeline) :
    Reaches s (passUntil stop till fuel s) := by
  have hclock : ∀ (u : Timeline) (t : Nat), Reaches u { u with now := t } :=
    fun u t => .of_quiet (.of_eq rfl rfl)
  induction fuel generalizing s with
  | zero => exact .refl s
  | succ fuel ih =>
    refine (reaches_runDue s).trans ?_
    unfold passUntil
    dsimp only
    split
    · exact .refl _
    · split
      · split
        · exact (hclock _ _).trans (ih _)
        · exact hclock _ _
      · exact hclock _ _

/-- What happens while somebody waits, scans by the loop included, is a course. -/
theorem reaches_wait (s : Timeline) (ms : Nat) : Reaches s (s.wait ms) := by
  unfold wait
  split
  · exact .refl s
  · exact (reaches_passUntil _ _ _ s).trans (.of_quiet (.of_eq rfl rfl))

theorem reaches_join (s : Timeline) (ms : Nat) : Reaches s (s.join ms).2 := by
  unfold join
  split
  · have hjoined : Reaches s { s with joinable := false } := .of_quiet (.of_eq rfl rfl)
    refine hjoined.trans ?_
    generalize { s with joinable := false } = s
    have hwaited : Reaches s (if s.loopEnded ∨ ms = 0 then { s with reads := s.reads - 1 }
        else (passUntil loopEnded (s.now + ms) (ms + 1) s).resume) := by
      split
      · exact .of_quiet (.of_eq rfl rfl)
      · exact (reaches_passUntil _ _ _ s).trans (.of_quiet (.of_eq rfl rfl))
    dsimp only
    split <;> exact hwaited
  · exact .refl s

end Timeline

end BotScript
