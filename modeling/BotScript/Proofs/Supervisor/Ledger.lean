import Mathlib.Data.List.Nodup
import Mathlib.Logic.Function.Iterate
import BotScript.Proofs.Supervisor.Course

/-!
# Keeping account of watched tasks

No task gets lost and none is counted twice. Each one that was registered is still watched, or it
left once: by a scan that found it ended, by being unregistered, or by a shutdown. What scans report
is what the tasks ended with that they took off, in order.

A failed task that stays is reported by one of the scans to come: each scan that can read a result
reports it, or brings it closer to the front. Scans that can read no result bring nothing about, so
how many scans it takes is bounded only if they can.

## Main definitions

* `Timeline.Departure.Justified`: why a task may leave.
* `Timeline.Ledger`: the account of a course.

## Main results

* `Timeline.Course.ledger`: every course keeps account.
* `Timeline.Course.leaves_or_advances`: a failed task leaves, or moves up with every scan.
* `Timeline.nothing_lost`: both, and what they come to.
* `Timeline.crowd_unreported`: scans without a read left do not report.
-/

namespace BotScript

namespace Timeline

variable {s s' s'' : Timeline} {m : Move} {moves more : List Move} {gone gone' : List Departure}
  {task period : Nat} {r : Report}

namespace Departure

/-- What a scan reported about the task. -/
def report? (d : Departure) : Option Report :=
  match d.cause with
  | .tick _ _ => d.ending.bind (·.report? d.task)
  | _ => none

/-- A task leaves by a scan only once it has ended, well or aborted or else as the scan reports.
Where it leaves before that, it was told to stop. -/
def Justified (s : Timeline) (d : Departure) : Prop :=
  match d.cause with
  | .tick _ result => ∃ e, d.ending = some e ∧
      ((e = .ok ∨ e = .aborted) ∨ ∃ r, e.report? d.task = some r ∧ result = .error r)
  | .unregister task => task = d.task ∧ (d.ending = none → s.Aborted d.task)
  | .shutdown => d.ending = none → s.Aborted d.task
  | .register _ | .finish _ _ | .pass => False

/-- A task leaves with a report, or because somebody wants it to. -/
def Tells (r : Report) (d : Departure) : Prop :=
  d.report? = some r ∨ d.cause = .unregister d.task ∨ d.cause = .shutdown

/-- A reason stays a reason. -/
theorem Justified.mono {d : Departure} (h : d.Justified s)
    (haborted : ∀ task, s.Aborted task → s'.Aborted task) : d.Justified s' := by
  obtain ⟨task, cause, ending⟩ := d
  cases cause with
  | tick reads result => exact h
  | unregister other => exact ⟨h.1, fun hnone => haborted _ (h.2 hnone)⟩
  | shutdown => exact fun hnone => haborted _ (h hnone)
  | register _ | finish _ _ | pass => exact h

end Departure

/-! ### What one step does to the watched tasks -/

theorem Ending.report?_eq_none {e : Ending} (h : e.report? task = none) :
    e = .ok ∨ e = .aborted := by
  cases e with
  | ok => exact .inl rfl
  | aborted => exact .inr rfl
  | failed chain => cases h
  | panicked => cases h

theorem watched_shutdown (s : Timeline) : s.shutdown.watched = [] := by
  obtain ⟨s₀, hs₀, heq⟩ := shutdown_eq s
  rw [heq, watched, (quiet_foldl_abort s.watched s₀).supervisor, hs₀.supervisor]
  rfl

theorem watched_unregister (s : Timeline) (task : Nat) :
    (s.unregister task).2.watched = s.watched.erase task := by
  unfold unregister
  split
  · rfl
  · rename_i hnot
    have hnotMem : task ∉ s.watched := by simpa [Supervisor.watches, watched] using hnot
    exact (List.erase_of_not_mem hnotMem).symm

theorem watched_tick (s : Timeline) (reads : Nat) :
    watched { s with supervisor := (s.supervisor.tick s.ending? reads).2.1 } =
      stillWatched s.ending? reads s.watched := by
  rw [watched, Supervisor.tick_eq]
  rfl

/-- A step adds the task it registers at the end, or else it adds none. -/
theorem Step.watched_cases (h : Step s m s') :
    (∃ task, m = .register task ∧ task < s.tasks.length ∧ s'.watched = s.watched ++ [task]) ∨
      m.registered? = none ∧ s'.watched.Sublist s.watched := by
  cases h with
  | @register task hlt => exact .inl ⟨task, rfl, hlt, rfl⟩
  | unregister task =>
    refine .inr ⟨rfl, ?_⟩
    rw [watched_unregister]
    exact List.erase_sublist
  | tick reads =>
    refine .inr ⟨rfl, ?_⟩
    rw [watched_tick]
    exact scan_sublist s.ending? reads s.watched
  | shutdown =>
    refine .inr ⟨rfl, ?_⟩
    rw [watched_shutdown]
    exact List.nil_sublist _
  | finish e ht hnone => exact .inr ⟨rfl, List.Sublist.refl _⟩
  | pass hquiet =>
    refine .inr ⟨rfl, ?_⟩
    rw [watched, hquiet.supervisor]
    exact List.Sublist.refl _

/-- Whoever leaves has a reason to. -/
theorem Step.justified (h : Step s m s') (hnodup : s.watched.Nodup) (hlt : task < s.tasks.length)
    (hmem : task ∈ s.watched) (hgone : task ∉ s'.watched) :
    Departure.Justified s' ⟨task, m, s.ending? task⟩ := by
  cases h with
  | @register other _ => exact absurd (List.mem_append_left [other] hmem) hgone
  | unregister other =>
    rw [watched_unregister] at hgone
    have heq : other = task := by
      by_contra hne
      exact hgone ((List.mem_erase_of_ne (Ne.symm hne)).2 hmem)
    subst heq
    refine ⟨rfl, fun hnone => ?_⟩
    have hwatches : s.supervisor.watches other = true := by
      simpa [Supervisor.watches, watched] using hmem
    rw [Timeline.unregister, if_pos hwatches]
    exact aborted_abort hlt hnone
  | tick reads =>
    rw [watched_tick] at hgone
    obtain ⟨e, he⟩ := isSome_ending_of_scan hmem hgone
    refine ⟨e, he, ?_⟩
    cases hr : e.report? task with
    | none => exact .inl (Ending.report?_eq_none hr)
    | some r =>
      refine .inr ⟨r, rfl, ?_⟩
      -- It is among the failures that went, which are what is reported.
      rw [← mem_reportsOf, Supervisor.tick_eq]
      change r ∈ reportsOf (scan s.ending? reads s.watched).1
      rw [← reports_scan hnodup, List.mem_filterMap]
      exact ⟨task, mem_leaving.2 ⟨hmem, hgone⟩, by simp [reportOn, he, hr]⟩
  | shutdown =>
    intro hnone
    obtain ⟨s₀, hs₀, heq⟩ := shutdown_eq s
    rw [heq]
    exact aborted_foldl_abort hmem (Nat.lt_of_lt_of_le hlt hs₀.length)
      ((hs₀.ending task).trans hnone)
  | finish e ht hnone => exact absurd hmem hgone
  | pass hquiet =>
    rw [watched, hquiet.supervisor] at hgone
    exact absurd hmem hgone

/-- What is reported is what those who leave by a scan ended with. -/
theorem Step.reports (h : Step s m s') (hnodup : s.watched.Nodup) :
    m.reports = (departures s m s').filterMap Departure.report? := by
  rw [departures, List.filterMap_map]
  cases h with
  | tick reads =>
    rw [watched_tick, Supervisor.tick_eq]
    exact (reports_scan hnodup).symm
  | register _ | unregister _ | shutdown | finish e ht hnone | pass hquiet =>
    exact (List.filterMap_eq_nil_iff.2 fun _ _ => rfl).symm

/-! ### The account -/

/-- The account of what happened up to some moment. -/
structure Ledger (moves : List Move) (gone : List Departure) (s : Timeline) : Prop where
  /-- The watched tasks are in the order in which they were registered. -/
  order : s.watched.Sublist (registered moves)
  /-- Each time a task was registered, it is still watched or has left. -/
  balance : ∀ task, s.watched.count task + (gone.map (·.task)).count task =
    (registered moves).count task
  /-- Whoever left had a reason to. -/
  justified : ∀ d ∈ gone, d.Justified s
  /-- What was reported is what those who left ended with. -/
  reports : reports moves = gone.filterMap Departure.report?
  /-- Tasks that were registered exist. -/
  exist : ∀ task ∈ registered moves, task < s.tasks.length

theorem registered_append (moves more : List Move) :
    registered (moves ++ more) = registered moves ++ registered more := List.filterMap_append

theorem count_add_count_leaving {before after : List Nat} (hsublist : after.Sublist before)
    (hnodup : before.Nodup) (task : Nat) :
    after.count task + (leaving before after).count task = before.count task := by
  by_cases hmem : task ∈ after
  · have hnot : task ∉ leaving before after := by simp [hmem]
    rw [List.count_eq_zero_of_not_mem hnot, List.count_eq_one_of_mem (hnodup.sublist hsublist) hmem,
      List.count_eq_one_of_mem hnodup (hsublist.subset hmem)]
  · rw [List.count_eq_zero_of_not_mem hmem, Nat.zero_add, leaving,
      List.count_filter (by simpa using hmem)]

theorem map_task_departures (s : Timeline) (m : Move) (s' : Timeline) :
    (departures s m s').map (·.task) = leaving s.watched s'.watched := by
  simp [departures, Function.comp_def]

/-- Every step keeps account. -/
theorem Ledger.step (h : Ledger moves gone s) (hstep : Step s m s')
    (hunique : (registered moves).Nodup) :
    Ledger (moves ++ [m]) (gone ++ departures s m s') s' := by
  have hnodup : s.watched.Nodup := hunique.sublist h.order
  have hlt : ∀ task ∈ s.watched, task < s.tasks.length := fun task hmem =>
    h.exist task (h.order.subset hmem)
  obtain ⟨-, hlength, haborted⟩ := hstep.frame
  have hjustified : ∀ d ∈ gone ++ departures s m s', d.Justified s' := by
    intro d hd
    rcases List.mem_append.1 hd with hold | hnew
    · exact (h.justified d hold).mono haborted
    · obtain ⟨task, htask, rfl⟩ := List.mem_map.1 hnew
      obtain ⟨hmem, hgone⟩ := mem_leaving.1 htask
      exact hstep.justified hnodup (hlt task hmem) hmem hgone
  have hreports : Timeline.reports (moves ++ [m]) =
      (gone ++ departures s m s').filterMap Departure.report? := by
    rw [Timeline.reports, List.flatMap_append, List.filterMap_append, ← hstep.reports hnodup,
      ← h.reports]
    simp [Timeline.reports]
  have hbalance : ∀ task, s'.watched.count task +
      ((gone ++ departures s m s').map (·.task)).count task =
        s'.watched.count task + (leaving s.watched s'.watched).count task +
          (gone.map (·.task)).count task := by
    intro task
    rw [List.map_append, List.count_append, map_task_departures]
    omega
  -- A registration adds to both sides of the account; any other move at most shifts
  -- tasks between them.
  rcases hstep.watched_cases with ⟨task, rfl, hexists, hadded⟩ | ⟨hnone, hsublist⟩
  · have hregistered : registered (moves ++ [.register task]) = registered moves ++ [task] :=
      registered_append moves _
    refine ⟨?_, ?_, hjustified, hreports, ?_⟩
    · rw [hadded, hregistered]
      exact h.order.append (List.Sublist.refl _)
    · intro other
      have hnobody : leaving s.watched s'.watched = [] := by
        refine List.filter_eq_nil_iff.2 fun task hmem => ?_
        simp [hadded, hmem]
      rw [hbalance, hnobody, hadded, hregistered, List.count_append, List.count_append,
        ← h.balance other]
      simp only [List.count_nil]
      omega
    · intro other hmem
      rw [hregistered] at hmem
      rcases List.mem_append.1 hmem with hold | hnew
      · exact Nat.lt_of_lt_of_le (h.exist other hold) hlength
      · obtain rfl := List.mem_singleton.1 hnew
        exact Nat.lt_of_lt_of_le hexists hlength
  · have hregistered : registered (moves ++ [m]) = registered moves := by
      rw [registered_append]
      simp [registered, hnone]
    refine ⟨?_, ?_, hjustified, hreports, ?_⟩
    · rw [hregistered]
      exact hsublist.trans h.order
    · intro other
      rw [hbalance, hregistered, count_add_count_leaving hsublist hnodup, h.balance]
    · intro other hmem
      rw [hregistered] at hmem
      exact Nat.lt_of_lt_of_le (h.exist other hmem) hlength

/-- Every course keeps account, provided that no task is registered twice. -/
theorem Course.ledger (h : Course (.initial period) moves gone s)
    (hunique : (registered moves).Nodup) :
    Ledger moves gone s := by
  induction h with
  | refl => exact ⟨List.Sublist.refl _, fun _ => rfl, by simp, rfl, by simp [registered]⟩
  | @step moves gone s s' m _ hstep ih =>
    have hbefore : (registered moves).Nodup := by
      rw [registered_append] at hunique
      exact hunique.of_append_left
    exact (ih hbefore).step hstep hbefore

/-! ### Failed tasks -/

/-- What is known to have failed stays so. -/
theorem Course.keeps_report (h : Course s moves gone s') (hr : reportOn s.ending? task = some r) :
    reportOn s'.ending? task = some r := by
  obtain ⟨e, he, hreport⟩ := Option.bind_eq_some_iff.1 hr
  exact Option.bind_eq_some_iff.2 ⟨e, h.frame.1 task e he, hreport⟩

/-- A failed task does not move back, and every scan that can read a result brings it up. -/
theorem Step.advances (h : Step s m s') (hnodup : s.watched.Nodup)
    (hr : reportOn s.ending? task = some r) (hmem : task ∈ s.watched) (hstays : task ∈ s'.watched) :
    s'.watched.idxOf task + alertTicks [m] ≤ s.watched.idxOf task := by
  rcases h.watched_cases with ⟨other, rfl, -, hadded⟩ | ⟨-, hsublist⟩
  · rw [hadded, List.idxOf_append_of_mem hmem]
    simp [alertTicks, Move.isAlert]
  · have hle := idxOf_le_of_sublist hsublist hnodup hstays
    cases halert : m.isAlert with
    | false => simpa [alertTicks, halert] using hle
    | true =>
      have hone : alertTicks [m] = 1 := by simp [alertTicks, halert]
      rw [hone]
      cases h with
      | tick reads =>
        have hreads : reads ≠ 0 := by simpa [Move.isAlert] using halert
        have hsome : (reportOn s.ending? task).isSome := by simp [hr]
        rw [watched_tick] at hstays ⊢
        exact (scan_advances hnodup hmem hsome hreads).resolve_left fun hgone => hgone hstays
      | register _ | unregister _ | shutdown | finish _ _ _ | pass _ => cases halert

/-- Whoever leaves with a report to make makes it, unless somebody else wanted the task to leave. -/
theorem Departure.Justified.tells {ending : Nat → Option Ending}
    (h : Departure.Justified s ⟨task, m, ending task⟩) (hr : reportOn ending task = some r) :
    Departure.Tells r ⟨task, m, ending task⟩ := by
  cases m with
  | tick reads result => exact .inl hr
  | unregister other =>
    obtain ⟨rfl, -⟩ := h
    exact .inr (.inl rfl)
  | shutdown => exact .inr (.inr rfl)
  | register _ | finish _ _ | pass => exact h.elim

/-- A failed task leaves, or every scan that can read a result brings it up. -/
theorem Course.leaves_or_advances (h : Course (.initial period) moves gone s)
    (hmem : task ∈ s.watched) (hr : reportOn s.ending? task = some r) (h' : Course s more gone' s')
    (hunique : (registered (moves ++ more)).Nodup) :
    (∃ d ∈ gone', d.task = task ∧ d.Tells r) ∨
      task ∈ s'.watched ∧ s'.watched.idxOf task + alertTicks more ≤ s.watched.idxOf task := by
  induction h' with
  | refl => exact .inr ⟨hmem, by simp [alertTicks]⟩
  | @step more gone' s' s'' m h' hstep ih =>
    have hbefore : (registered (moves ++ more)).Nodup := by
      rw [← List.append_assoc, registered_append] at hunique
      exact hunique.of_append_left
    have hledger := (h.trans h').ledger hbefore
    have hnodup : s'.watched.Nodup := hbefore.sublist hledger.order
    rcases ih hbefore with ⟨d, hd, htells⟩ | ⟨hmem', hle⟩
    · exact .inl ⟨d, List.mem_append_left _ hd, htells⟩
    · -- Should it leave now, the move that takes it off tells why.
      by_cases hstays : task ∈ s''.watched
      · have hadvances := hstep.advances hnodup (h'.keeps_report hr) hmem' hstays
        refine .inr ⟨hstays, ?_⟩
        rw [alertTicks, List.countP_append]
        unfold alertTicks at hadvances hle
        omega
      · have hlt := hledger.exist task (hledger.order.subset hmem')
        have hjustified := hstep.justified hnodup hlt hmem' hstays
        refine .inl ⟨⟨task, m, s'.ending? task⟩, ?_, rfl, hjustified.tells (h'.keeps_report hr)⟩
        refine List.mem_append_right _ (List.mem_map.2 ⟨task, ?_, rfl⟩)
        exact mem_leaving.2 ⟨hmem', hstays⟩

/-- Nothing gets lost, and nothing is counted twice. The watched tasks are in the order of their
registration. Every task that was registered is watched or has left, and only once, for a reason;
what was reported is what those who left by a scan had failed with, each once. A failed task is
reported after no more scans than tasks were registered before it, and one, if those scans can read
a result and nobody else takes it off before. All of this covers scans by hand, the beginning of a
task or of the loop, and what happens while somebody waits, by the clock or for the loop. -/
theorem nothing_lost (h : Course (.initial period) moves gone s)
    (hunique : (registered moves).Nodup) :
    s.watched.Sublist (registered moves) ∧ s.watched.Nodup ∧
    (∀ task ∈ registered moves, s.watched.count task + (gone.map (·.task)).count task = 1) ∧
    (∀ d ∈ gone, d.task ∈ registered moves ∧ d.Justified s) ∧
    reports moves = gone.filterMap Departure.report? ∧
    (∀ task e r, task ∈ s.watched → s.ending? task = some e → e.report? task = some r →
      ∀ more gone' s', Course s more gone' s' → (registered (moves ++ more)).Nodup →
        (registered moves).idxOf task + 1 ≤ alertTicks more →
        ∃ d ∈ gone', d.task = task ∧ d.Tells r) ∧
    (∃ gone', Course s [.tick s.reads s.tick.1, .pass] gone' s.tick.2) ∧
    (∀ plan, Reaches s (s.spawn plan)) ∧ Reaches s s.start.2 ∧
    ∀ ms, Reaches s (s.wait ms) ∧ Reaches s (s.join ms).2 := by
  have hledger := h.ledger hunique
  refine ⟨hledger.order, hunique.sublist hledger.order, ?_, ?_, hledger.reports, ?_, course_tick s,
    fun plan => .of_quiet (quiet_spawn s plan), .of_quiet (quiet_start s),
    fun ms => ⟨reaches_wait s ms, reaches_join s ms⟩⟩
  · intro task hmem
    rw [hledger.balance, List.count_eq_one_of_mem hunique hmem]
  · intro d hd
    refine ⟨?_, hledger.justified d hd⟩
    -- One that left counts, so it was registered.
    have hpos : 0 < (gone.map (·.task)).count d.task :=
      List.count_pos_iff.2 (List.mem_map_of_mem hd)
    have hbalance := hledger.balance d.task
    exact List.count_pos_iff.1 (by omega)
  · intro task e r hmem he hr more gone' s' h' hunique' hticks
    have hfailed : reportOn s.ending? task = some r := Option.bind_eq_some_iff.2 ⟨e, he, hr⟩
    rcases h.leaves_or_advances hmem hfailed h' hunique' with hleft | ⟨-, hle⟩
    · exact hleft
    · have hidx := idxOf_le_of_sublist hledger.order hunique hmem
      omega

/-! ### Examples -/

/-- Some tasks begin, and each is registered at once. -/
def watching (plans : List Plan) : Timeline :=
  plans.foldl (fun s plan => (s.spawn plan).registerNewest) (.initial 10)

/-- A task that fails, one that does not end, and one that panics. -/
def trio : Timeline := watching [⟨0, some (.failed ["no"])⟩, ⟨0, none⟩, ⟨0, some .panicked⟩]

theorem course_trio :
    ∃ gone, Course (.initial 10) [.pass, .register 0, .pass, .register 1, .pass,
      .register 2] gone trio := by
  have hfirst := (Course.single (.pass (quiet_spawn (.initial 10) ⟨0, some (.failed ["no"])⟩))).step
    (Step.register _ (show 0 < _ by decide))
  have hsecond := (hfirst.step (.pass (quiet_spawn _ ⟨0, none⟩))).step
    (Step.register _ (show 1 < _ by decide))
  have hthird := (hsecond.step (.pass (quiet_spawn _ ⟨0, some .panicked⟩))).step
    (Step.register _ (show 2 < _ by decide))
  exact ⟨_, hthird⟩

/-- After a wait all three are still watched, and three scans report the third one. -/
theorem trio_accounted :
    ∃ moves gone, Course (.initial 10) moves gone (trio.wait 5) ∧ registered moves = [0, 1, 2] ∧
      (trio.wait 5).watched = [0, 1, 2] ∧
      ∃ more gone' s', Course (trio.wait 5) more gone' s' ∧ alertTicks more = 3 ∧
        ∃ d ∈ gone', d.task = 2 ∧ d.Tells (.panicked 2) := by
  obtain ⟨gone, hcourse⟩ := course_trio
  obtain ⟨rest, gone', hwait, hnone⟩ := reaches_wait trio 5
  have hregistered : ∀ more, registered more = [] →
      registered ([.pass, .register 0, .pass, .register 1, .pass, .register 2] ++ rest ++ more) =
        [0, 1, 2] := by
    intro more hmore
    rw [registered_append, registered_append, hnone, hmore]
    rfl
  have hall := hregistered [] rfl
  rw [List.append_nil] at hall
  have hlost := nothing_lost (hcourse.trans hwait) (by rw [hall]; decide)
  obtain ⟨-, -, -, -, -, hbound, -⟩ := hlost
  have hticks := ((Course.single (.tick (trio.wait 5) 9)).step (.tick _ 9)).step (.tick _ 9)
  refine ⟨_, _, hcourse.trans hwait, hall, by decide +kernel, _, _, _, hticks, rfl, ?_⟩
  refine hbound 2 .panicked (.panicked 2) (by decide +kernel) (by decide +kernel) rfl _ _ _
    hticks ?_ ?_
  · rw [hregistered _ rfl]
    decide
  · rw [hall]
    exact Nat.le_refl 3

/-- Many tasks that fail at once, after a wait. -/
def crowd (n : Nat) : Timeline := (watching (List.replicate n ⟨0, some (.failed ["no"])⟩)).wait 5

/-- In a crowd the number of tasks before it does not bound how long a failed task stays: once no
result can be read, it stays however many scans follow. -/
theorem crowd_unreported :
    (crowd 130).watched.idxOf 127 = 127 ∧ (crowd 130).ending? 127 = some (.failed ["no"]) ∧
      127 ∈ ((fun s : Timeline => s.tick.2)^[130] (crowd 130)).watched := by
  decide +kernel

end Timeline

end BotScript
