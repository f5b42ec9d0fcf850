import Mathlib.Tactic.IntervalCases
import BotScript.Proofs.Activity.FanOut
import BotScript.Proofs.Machine.Cancellation
import BotScript.Proofs.Machine.Plans

/-!
# Instructions over several clients

An instruction over several clients runs a group of them, and the outcome of the group is that of
its members by themselves, from the moment the group begins. It has to be said for each group an
instruction may come to: some instructions run more than one, and some evaluate their operands
before.

Only in a small group the first failure by time is the one that counts. In a large group a failure
has to wait for the clients before it.

## Main definitions

* `Running.Opens`: an activity is about to begin a group.
* `Machine.Opens`: the next instruction of a machine comes to begin a group.
* `Machine.FansOut`: what is said of such a group.

## Main results

* `Machine.Opens.begins`: the group is of the selected clients.
* `Machine.Opens.step_eq`: the step goes on as the group does.
* `Machine.step_logWindow`: a log of windows has one line for each client, in order.
* `Machine.outcome_of_members`: the outcome of each group, in terms of its members.
-/

namespace BotScript

open World Cast

variable {σ : Type} {n : Nat} {κ : AnswerKind} {α : Type} {every : Nat} {selected : List (Fin n)}

theorem World.log_now (w : World σ n) (lines : List String) : (w.log lines).now = w.now := by
  induction lines generalizing w with
  | nil => rfl
  | cons line rest ih => exact ih (w.record (.line line))

/-- A chain of an instruction fails of itself only for want of a window. -/
theorem Chain.Regular.ensures {c : Chain κ} (h : c.Regular every) :
    c.Ensures Fault.IsMissingWindow := by
  induction c with
  | done a => trivial
  | fail f => exact h
  | call c next ih => exact fun a => ih a (h a)
  | rest ms next ih => exact ih h
  | focus next ih => exact ih h
  | poll c enough ms next ih => exact ih h.2

/-- A member of a group that is about to begin: its action was started, or its chain is
still to begin. -/
def Member.Begins (every : Nat) (m : Member n κ) : Prop :=
  m.IsStarted ∨ ∃ c, m.stage = .ready c ∧ c.Regular every

namespace Member.Begins

variable {m : Member n κ}

theorem not_ended (h : m.Begins every) (r : Except Fault κ.Answer) : ¬ m.Ended r := by
  rcases h with ⟨c, due, result, hstage⟩ | ⟨c, hstage, -⟩
  · rw [Ended, hstage]
    rintro ⟨⟩
  · rw [Ended, hstage]
    rintro ⟨⟩

theorem ensures (h : m.Begins every) (crew : Crew n) : m.stage.Ensures (Fault.IsOf crew m.who) := by
  rcases h with ⟨c, due, result, hstage⟩ | ⟨c, hstage, hregular⟩
  · rw [hstage]
    exact fun a => trivial
  · rw [hstage]
    exact hregular.ensures.mono fun f hf => .inr hf

theorem timely [ClientModel σ] (h : m.Begins every) (hevery : 0 < every) (crew : Crew n) (T : Nat)
    (w : World σ n) : m.Timely crew T w := by
  rcases h with hstarted | ⟨c, hstage, hregular⟩
  · exact hstarted.timely
  · obtain ⟨who, stage⟩ := m
    cases hstage
    exact timely_ready hevery hregular who w

end Member.Begins

namespace Running

variable [ClientModel σ] {crew : Crew n} {alarm : Alarm} {w w' : World σ n} {r r' : Running n α}
  {g : Group n κ} {next : List κ.Answer → Activity n α}

/-- An activity is about to begin a group: so far it goes by itself, and its next small step is to
wait for the group. -/
def Opens (crew : Crew n) (w : World σ n) (r : Running n α) (g : Group n κ)
    (next : List κ.Answer → Activity n α) : Prop :=
  (∃ a, r.phase = .going a) ∧ r.tick crew ⟨none, none⟩ w = .on w ⟨[], .grouped g next⟩

/-- The group that a tidy activity is about to begin is of the selected clients. -/
theorem Opens.begins (h : r.Opens crew w g next) (htidy : r.Tidy every selected) :
    g.cursor = 0 ∧ g.members.map Member.who = selected ∧ ∀ m ∈ g.members, m.Begins every := by
  obtain ⟨⟨a, ha⟩, htick⟩ := h
  obtain ⟨launched, phase⟩ := r
  obtain ⟨-, hstarted, -, hphase⟩ := htidy
  cases ha
  -- Only waiting for actions and gathering chains lead to a group.
  cases a with
  | done x => cases htick
  | fail f => cases htick
  | ask who c next => cases (Tick.on.inj htick).2
  | pause ms next => cases htick
  | launch who c next => cases (Running.mk.inj (Tick.on.inj htick).2).2
  | join next =>
    cases htick
    exact ⟨rfl, hphase.1, fun m hm => .inl (hstarted m hm)⟩
  | gather chains next =>
    cases htick
    refine ⟨rfl, (Group.map_who_ofChains chains).trans hphase.2.1, fun m hm => ?_⟩
    obtain ⟨c, hc, rfl⟩ := List.mem_map.mp hm
    exact .inr ⟨c.2, rfl, hphase.2.2.1 c hc⟩

/-- A run goes on from what the activity comes to. -/
theorem Comes.run_add [alarm.Timed] (h : Comes crew alarm w r w' r') :
    ∃ ticks, ∀ fuel, r.run crew alarm (fuel + ticks) w = r'.run crew alarm fuel w' := by
  induction h with
  | start => exact ⟨0, fun _ => rfl⟩
  | tick _ htick ih =>
    obtain ⟨ticks, hrun⟩ := ih
    refine ⟨1 + ticks, fun fuel => ?_⟩
    rw [← Nat.add_assoc, hrun, run_succ_on htick]

end Running

namespace Machine

variable [ClientModel σ] {crew : Crew n} {w₀ w : World σ n} {m : Machine} {i : Instruction}
  {g : Group n κ} {next : List κ.Answer → Activity n Effect}

/-- In the course of its next instruction, a machine comes to begin a group. -/
def Opens (crew : Crew n) (every : Nat) (w₀ : World σ n) (m : Machine) (i : Instruction)
    (w : World σ n) (g : Group n κ) (next : List κ.Answer → Activity n Effect) : Prop :=
  m.running = true ∧ m.instruction? = some i ∧
    ∃ r, Running.Comes crew ⟨none, none⟩ w₀ (.ofActivity (m.plan crew every i)) w r ∧
    r.Opens crew w g next

theorem Opens.begins (h : m.Opens crew every w₀ i w g next) :
    g.cursor = 0 ∧ g.members.map Member.who = i.clients n ∧ ∀ x ∈ g.members, x.Begins every := by
  obtain ⟨-, -, r, hcomes, hopens⟩ := h
  have htidy := Running.tidy_ofActivity (i.clients_pairwise n) (m.plan_tidy crew every i)
  exact hopens.begins (hcomes.tidy htidy)

/-- A group that an instruction comes to is about to begin. -/
theorem Opens.fresh (h : m.Opens crew every w₀ i w g next) (hapart : crew.Apart (i.clients n))
    (htimely : 0 < every ∨ ∀ x ∈ g.members, ∃ t r, x.EndsAlone crew w t r) :
    Group.Fresh crew w g := by
  obtain ⟨hcursor, hwho, hbegins⟩ := h.begins
  refine ⟨hcursor, fun x hx => (hbegins x hx).not_ended, hwho ▸ hapart, fun x hx T => ?_,
    fun x hx => (hbegins x hx).ensures crew⟩
  rcases htimely with hevery | hends
  · exact (hbegins x hx).timely hevery crew T w
  · obtain ⟨t, r, halone⟩ := hends x hx
    exact halone.timely

/-- The step that comes to a group goes on as the group does. -/
theorem Opens.step_eq (h : m.Opens crew every w₀ i w g next) :
    ∃ ticks, ∀ fuel, m.step crew every ⟨none, none⟩ (fuel + ticks) w₀ =
      m.conclude (Running.run crew ⟨none, none⟩ fuel w ⟨[], .grouped g next⟩) := by
  obtain ⟨hrunning, hi, r, hcomes, -, htick⟩ := h
  obtain ⟨ticks, hrun⟩ := (hcomes.tick htick).run_add
  refine ⟨ticks, fun fuel => ?_⟩
  rw [step_of_instruction hrunning hi, Activity.run, hrun]

/-! ### Logs of windows -/

/-- A client that is about to get the text of a window. -/
def reader (path : List String) (i : Fin n) : Member n .text := ⟨i, .ready (windowChain path)⟩

/-- The lines for the texts of a window, one for each of some clients. -/
def windowLog (crew : Crew n) (clients : List (Fin n)) (texts : List String) : List String :=
  List.zipWith (fun i text => crew.title i ++ " - " ++ text) clients texts

/-- What is done with the texts of a window: their lines are written. -/
def logTexts (crew : Crew n) (m : Machine) (clients : List (Fin n)) (texts : List String) :
    Activity n Effect :=
  .done ⟨m.next, windowLog crew clients texts⟩

variable {who : Selector} {path texts : List String} {T : Nat}

/-- A log of windows begins with the group of the selected clients. -/
theorem opens_logWindow (hrunning : m.running = true)
    (hi : m.instruction? = some (.logWindow who path)) :
    m.Opens crew every w (.logWindow who path) w ⟨(who.pick n).map (reader path), 0⟩
      (m.logTexts crew (who.pick n)) := by
  refine ⟨hrunning, hi, _, .start, ⟨_, rfl⟩, ?_⟩
  have hmembers : (Group.ofChains ((who.pick n).map fun i => (i, windowChain path))).members =
      (who.pick n).map (reader path) := by
    simp [Group.ofChains, Function.comp_def, reader]
  rw [← hmembers, plan_logWindow]
  rfl

/-- A log of windows ends with the last of the clients, and writes a line for each of
them, in order. -/
theorem step_logWindow (hrunning : m.running = true)
    (hi : m.instruction? = some (.logWindow who path)) (hapart : crew.Apart (who.pick n))
    (htexts : List.Forall₂ (fun i text => ∃ t ≤ T, (reader path i).EndsAlone crew w t (.ok text))
      (who.pick n) texts)
    (hlast : who.pick n = [] ∧ T = w.now ∨
      ∃ i ∈ who.pick n, ∃ r, (reader path i).EndsAlone crew w T r) :
    ∃ fuel r w', m.step crew every ⟨none, none⟩ fuel w = (r, w', m.next.settle) ∧ w'.now = T ∧
      w'.lines = w.lines ++ windowLog crew (who.pick n) texts := by
  have hopens : m.Opens crew every w _ w _ _ := opens_logWindow hrunning hi
  have hresults : List.Forall₂
      (fun (x : Member n .text) text => ∃ t ≤ T, x.EndsAlone crew w t (.ok text))
      ((who.pick n).map (reader path)) texts :=
    List.forall₂_map_left_iff.mpr htexts
  have hfresh := hopens.fresh hapart (.inr fun x hx => by
    obtain ⟨text, t, -, halone⟩ := exists_of_forall₂ hresults hx
    exact ⟨t, _, halone⟩)
  have hlast' : (who.pick n).map (reader path) = [] ∧ T = w.now ∨
      ∃ q r, Group.EndsAt crew w ((who.pick n).map (reader path)) q T r := by
    refine hlast.imp (And.imp_left fun hnil => by rw [hnil]; rfl) ?_
    rintro ⟨i, hmem, r, halone⟩
    obtain ⟨q, hq⟩ := List.mem_iff_getElem?.mp (List.mem_map_of_mem hmem)
    exact ⟨q, r, _, hq, halone⟩
  obtain ⟨ticks, w', hrun, hnow, -⟩ := (hfresh.fanOut (m.logTexts crew (who.pick n))).success
    texts T hresults hlast'
  obtain ⟨before, hstep⟩ := hopens.step_eq
  -- One more small step, and the lines are there.
  have hended := hrun 1
  have hfollows := Running.run_follows crew ⟨none, none⟩ (1 + ticks) w
    ⟨[], .grouped ⟨(who.pick n).map (reader path), 0⟩ (m.logTexts crew (who.pick n))⟩
  rw [hended] at hfollows
  refine ⟨1 + ticks + before, _, _, (hstep _).trans (congrArg m.conclude hended), ?_, ?_⟩
  · exact (World.log_now w' _).trans hnow
  · rw [← hfollows.lines_eq]
    exact World.lines_log w' _

/-! ### Outcomes -/

/-- A group in the course of an instruction is of the selected clients, the step goes on as the
group does, and the outcome of the group is that of its members. -/
structure FansOut (crew : Crew n) (every : Nat) (w₀ : World σ n) (m : Machine) (i : Instruction)
    (w : World σ n) (g : Group n κ) (next : List κ.Answer → Activity n Effect) : Prop where
  clients : g.members.map Member.who = i.clients n
  step : ∃ ticks, ∀ fuel, m.step crew every ⟨none, none⟩ (fuel + ticks) w₀ =
    m.conclude (Running.run crew ⟨none, none⟩ fuel w ⟨[], .grouped g next⟩)
  outcome : Group.FanOut crew w g next

/-- If no two selected clients share the input focus, each group that an instruction comes to has
the outcome of its members by themselves; and a log of windows has one line for each client, in
order. -/
theorem outcome_of_members (crew : Crew n) (every : Nat) (w : World σ n) (m : Machine) :
    (∀ (κ : AnswerKind) i w' (g : Group n κ) next, m.Opens crew every w i w' g next →
      crew.Apart (i.clients n) → (0 < every ∨ ∀ x ∈ g.members, ∃ t r, x.EndsAlone crew w' t r) →
      m.FansOut crew every w i w' g next) ∧
    ∀ who path texts T, m.running = true → m.instruction? = some (.logWindow who path) →
      crew.Apart (who.pick n) →
      List.Forall₂ (fun i text => ∃ t ≤ T, (reader path i).EndsAlone crew w t (.ok text))
        (who.pick n) texts →
      (who.pick n = [] ∧ T = w.now ∨ ∃ i ∈ who.pick n, ∃ r, (reader path i).EndsAlone crew w T r) →
      ∃ fuel r w', m.step crew every ⟨none, none⟩ fuel w = (r, w', m.next.settle) ∧ w'.now = T ∧
        w'.lines = w.lines ++ windowLog crew (who.pick n) texts := by
  refine ⟨fun κ i w' g next hopens hapart htimely => ?_, ?_⟩
  · exact ⟨hopens.begins.2.1, hopens.step_eq, (hopens.fresh hapart htimely).fanOut next⟩
  · intro who path texts T hrunning hi hapart htexts hlast
    exact step_logWindow hrunning hi hapart htexts hlast

/-- Both were told to use a potion. -/
def told : World Rehearsal 2 :=
  ((unequal.call pair first .usePotion).2.call pair second .usePotion).2

/-- Both are about to use a potion. -/
def drinkers : Group 2 .nothing :=
  ⟨[⟨first, .calling .usePotion (some 50) (.ok ()) .done⟩,
    ⟨second, .calling .usePotion (some 20) (.error (.failed "usepotion" "no")) .done⟩], 0⟩

/-- The failure of the second client ends the group, while the first one is still busy. Both texts
are logged in the order of the clients, though the second one comes first. -/
theorem unequal_outcome :
    (∃ next, (about (.act .all .usePotion)).Opens pair 100 unequal (.act .all .usePotion)
        told drinkers next ∧
      Group.FailsAt pair told drinkers next 20 1 (.client "p2" (.failed "usepotion" "no"))) ∧
    ∃ fuel r w', (about (.logWindow .all ["w"])).step pair 100 ⟨none, none⟩ fuel unequal =
        (r, w', (about (.logWindow .all ["w"])).next.settle) ∧
      w'.now = 50 ∧ w'.lines = ["p1 - a", "p2 - b"] := by
  have hapart : pair.Apart (Selector.all.pick 2) := by decide
  obtain ⟨hgroups, -⟩ := outcome_of_members pair 100 unequal (about (.act .all .usePotion))
  obtain ⟨-, hlogs⟩ := outcome_of_members pair 100 unequal (about (.logWindow .all ["w"]))
  refine ⟨?_, ?_⟩
  · have hopens : (about (.act .all .usePotion)).Opens pair 100 unequal (.act .all .usePotion)
        told drinkers _ := ⟨rfl, rfl, _, .tick (.tick .start rfl) rfl, ⟨_, rfl⟩, rfl⟩
    have hfirst : Group.EndsAt pair told drinkers.members 0 50 (.ok ()) :=
      ⟨_, rfl, 10, _, by rfl, by rfl⟩
    have hsecond : Group.EndsAt pair told drinkers.members 1 20
        (.error (.client "p2" (.failed "usepotion" "no"))) :=
      ⟨_, rfl, 10, _, by rfl, by rfl⟩
    refine ⟨_, hopens, ?_⟩
    have houtcome := (hgroups _ _ _ _ _ hopens hapart (.inl (by decide))).outcome
    refine houtcome.firstFailure (by decide) 1 20 _ hsecond fun q t f hfails => ?_
    rcases q with _ | _ | q
    · cases (hfails.unique hfirst).2
    · exact .inr ⟨(hsecond.unique hfails).1, Nat.le_refl 1⟩
    · obtain ⟨x, hx, -⟩ := hfails
      cases hx
  · have hfirst : (reader ["w"] 0).EndsAlone pair unequal 50 (.ok "a") := ⟨10, _, by rfl, by rfl⟩
    have hsecond : (reader ["w"] 1).EndsAlone pair unequal 20 (.ok "b") := ⟨10, _, by rfl, by rfl⟩
    exact hlogs .all ["w"] ["a", "b"] 50 rfl rfl hapart
      (.cons ⟨50, by decide, hfirst⟩ (.cons ⟨20, by decide, hsecond⟩ .nil))
      (.inr ⟨0, by decide, _, hfirst⟩)

/-- Many clients, of which the first one is slow. The last one fails at once. -/
def crowded : World Rehearsal 31 :=
  .initial (((Vector.replicate 30 (rehearsed "a" 0 [])).set 0 (rehearsed "a" 50 [])).push
    (rehearsed "a" 0 [("text", some "no")]))

/-- Many clients are about to get the text of a window. -/
def crowdReaders : Group 31 .text := ⟨(Selector.all.pick 31).map (reader ["w"]), 0⟩

/-- In a large group, the only failure may have to wait for a client before it. -/
theorem crowd_waits_for_first :
    ∃ next, (about (.logWindow .all ["w"])).Opens crowd 100 crowded (.logWindow .all ["w"]) crowded
        crowdReaders next ∧
      crowd.Apart (Selector.all.pick 31) ∧
      Group.EndsAt crowd crowded crowdReaders.members 30 0
      (.error (.client "last" (.failed "text" "no"))) ∧
      (∀ j < 30, ∃ t, Group.EndsAt crowd crowded crowdReaders.members j t (.ok "a")) ∧
      ¬ Group.FailsAt crowd crowded crowdReaders next 0 30
      (.client "last" (.failed "text" "no")) := by
  refine ⟨_, opens_logWindow rfl rfl, by decide +kernel, ⟨_, by rfl, 10, _, by rfl, by rfl⟩, ?_, ?_⟩
  · intro j hj
    interval_cases j <;> exact ⟨_, _, by rfl, 10, _, by rfl, by rfl⟩
  · -- The group comes to its end when the first client has come to its own.
    intro hfails
    have hnow := hfails.now_eq 200 (by decide +kernel)
    exact absurd hnow (by decide +kernel)

end Machine

end BotScript
