import BotScript.Proofs.Machine.Deeds
import BotScript.Proofs.Machine.DrySteps

/-!
# Counting what is done to clients

Instructions that act begin one action on each client they select; all others only ask. So the
number of actions that were begun on a client goes up by one with each instruction that acts on it.
A dry-run client counts its actions itself, in a word of 64 bits, and never loses one.

## Main definitions

* `Instruction.actsOn`: whether an instruction acts on a client.
* `World.deeds`: how many actions were begun on a client.
* `World.Tallied`: all dry-run clients have counted right.

## Main results

* `World.Dealt.tallied`: dealings with dry-run clients keep their counts right.
* `Machine.plan_questions`: an instruction that acts on nobody only asks.
* `Machine.deeds_of_isDone`: what an instruction adds to the count.
-/

namespace BotScript

open Activity World

variable {σ : Type} {n : Nat} {κ : AnswerKind} {α β : Type}

/-- Whether an instruction acts on a client. -/
def Instruction.actsOn (j : Fin n) (i : Instruction) : Bool := i.actor?.any (·.includes j)

/-! ### Actions in the journal -/

/-- Whether an event is the beginning of an action. -/
def Event.isDeed : Event n → Bool
  | @made _ _ _ κ _ _ => κ == .nothing
  | _ => false

theorem Event.isDeed_bare (e : Event n) : e.bare.isDeed = e.isDeed := by
  cases e <;> rfl

theorem Event.isDeed_of_isEnd {e : Event n} (h : e.isEnd = true) : e.isDeed = false := by
  cases e with
  | made | line => cases h
  | _ => rfl

namespace World

variable {v w : World σ n} {j : Fin n}

/-- How many actions were begun on a client. -/
def deeds (w : World σ n) (j : Fin n) : Nat := (w.talk j).countP Event.isDeed

theorem deeds_of_talk {l : List (Event n)} (h : v.talk j = w.talk j ++ l) :
    v.deeds j = w.deeds j + l.countP Event.isDeed := by
  rw [deeds, h, List.countP_append]
  rfl

theorem deeds_record {e : Event n} (he : e.isDeed = false) : (w.record e).deeds j = w.deeds j := by
  by_cases hj : e.concerns j = true
  · rw [deeds_of_talk (talk_record_self hj), List.countP_singleton, Event.isDeed_bare, he]
    rfl
  · rw [deeds, talk_record_other (by simpa using hj)]
    rfl

theorem deeds_log (w : World σ n) (lines : List String) : (w.log lines).deeds j = w.deeds j := by
  induction lines generalizing w with
  | nil => rfl
  | cons line rest ih => exact (ih (w.record (.line line))).trans (deeds_record rfl)

theorem log_clients (w : World σ n) (lines : List String) : (w.log lines).clients = w.clients := by
  induction lines generalizing w with
  | nil => rfl
  | cons line rest ih => exact ih (w.record (.line line))

/-- Where only questions are asked, no actions are begun. -/
theorem Adds.deeds_eq (h : Adds (fun _ c => IsQuestion c) v w) : v.deeds j = w.deeds j := by
  obtain ⟨events, hjournal, hevents⟩ := h
  have htalk : v.talk j =
      w.talk j ++ (events.reverse.filter (Event.concerns j)).map Event.bare := by
    rw [talk, history, hjournal, List.reverse_append, List.filter_append, List.map_append]
    rfl
  rw [deeds_of_talk htalk, List.countP_eq_zero.2 ?_, Nat.add_zero]
  intro e he
  obtain ⟨e', he', rfl⟩ := List.mem_map.1 he
  have habout := hevents e' (List.mem_reverse.1 (List.mem_filter.1 he').1)
  rw [Event.isDeed_bare]
  cases e' with
  | made time who c held => exact fun hdeed => habout (eq_of_beq hdeed)
  | _ => rintro ⟨⟩

end World

/-! ### Dry-run clients -/

/-- A dry-run client counts an action and nothing else. -/
theorem DryRun.actions_reply (c : Call κ) (s : DryRun) :
    (s.reply c).2.actions = s.actions + if κ = .nothing then 1 else 0 := by
  cases c <;> first | rfl | exact (UInt64.add_zero _).symm

namespace World

variable {crew : Crew n} {v w : World DryRun n}

/-- All clients have counted the actions that were begun on them, as far as their words go. -/
def Tallied (w : World DryRun n) : Prop := ∀ j, (w.clients.get j).actions = UInt64.ofNat (w.deeds j)

theorem Tallied.call (h : w.Tallied) (i : Fin n) (c : Call κ) : (w.call crew i c).2.Tallied := by
  intro j
  by_cases hj : j = i
  · subst hj
    obtain ⟨-, -, hclient, htalk⟩ := call_of_reply (w := w) (i := j) (c := c) crew rfl
    rw [hclient, deeds_of_talk htalk]
    refine (DryRun.actions_reply c _).trans ?_
    rw [h j, List.countP_singleton, UInt64.ofNat_add]
    by_cases hκ : κ = .nothing
    · simp [Event.isDeed, hκ]
    · simp [Event.isDeed, hκ]
  · have hsame := sameFor_call crew hj w c
    rw [hsame.client, deeds, hsame.talk_eq]
    exact h j

/-- Dealings with dry-run clients keep their counts right. -/
theorem Dealt.tallied (h : Dealt crew w v) (hw : w.Tallied) : v.Tallied := by
  induction h with
  | start => exact hw
  | call _ i c ih => exact ih.call i c
  | @ends v _ e he ih =>
    intro j
    rw [deeds_record (Event.isDeed_of_isEnd he)]
    exact ih j
  | atTime _ t ih => exact ih
  | claim _ i ih => exact ih
  | release _ i ih => exact ih

end World

/-! ### Instructions -/

namespace Activity

variable {P : Fin n → Sigma Call → Prop}

theorem Calls.bind {a : Activity n α} {f : α → Activity n β} (ha : a.Calls P)
    (hf : ∀ x, (f x).Calls P) :
    (a.bind f).Calls P := by
  induction a with
  | done x => exact hf x
  | fail e => trivial
  | ask who c next ih => exact ⟨ha.1, fun a => ih a (ha.2 a)⟩
  | pause ms next ih => exact ih ha
  | launch who c next ih => exact ⟨ha.1, ih ha.2⟩
  | join next ih => exact ih ha
  | gather chains next ih => exact ⟨ha.1, fun as => ih as (ha.2 as)⟩

end Activity

theorem eachRun_calls {P : Sigma Call → Prop} {chain : Chain κ} (h : chain.Calls P)
    (clients : List (Fin n)) :
    (eachRun chain clients).Calls fun _ => P := by
  refine ⟨fun c hc => ?_, fun _ => trivial⟩
  obtain ⟨j, -, rfl⟩ := List.mem_map.1 hc
  exact h

theorem waitChain_questions (c : Call .truth) (completion : Bool) (every : Nat) :
    (waitChain c completion every).Calls IsQuestion := by
  cases completion with
  | true => exact ⟨nofun, nofun, trivial⟩
  | false => exact ⟨nofun, trivial⟩

theorem zones_asks (clients : List (Fin n)) : (zones clients).Asks := by
  induction clients with
  | nil => trivial
  | cons who rest ih => exact ⟨nofun, fun _ => ih.andThen fun _ => trivial⟩

theorem zoneChange_questions (every : Nat) (completion : Bool) (clients : List (Fin n)) :
    (zoneChange every completion clients).Calls fun _ c => IsQuestion c := by
  refine (zones_asks clients).calls.bind fun starts => ?_
  refine Calls.bind ⟨fun c hc => ?_, fun _ => trivial⟩ fun _ => ?_
  · obtain ⟨start, -, rfl⟩ := List.mem_map.1 hc
    exact ⟨nofun, trivial⟩
  · cases completion with
    | true =>
      have hloaded : (loadedChain every).Calls IsQuestion := ⟨nofun, trivial⟩
      exact (eachRun_calls hloaded clients).bind fun _ => trivial
    | false => trivial

theorem Wait.perform_questions (every : Nat) (clients : List (Fin n)) (wait : Wait) :
    (wait.perform every clients).Calls fun _ c => IsQuestion c := by
  have heach : ∀ c, (Wait.perform.each every clients wait c).Calls fun _ c => IsQuestion c := by
    intro c
    have hchain := waitChain_questions c wait.completion every
    exact (eachRun_calls hchain clients).bind fun _ => trivial
  unfold Wait.perform
  split
  · exact heach _
  · exact heach _
  · exact heach _
  · exact heach _
  · exact zoneChange_questions every wait.completion clients

namespace Machine

variable {crew : Crew n} {every : Nat} {m : Machine} {i : Instruction}

/-- An instruction that acts on nobody only asks. -/
theorem plan_questions (crew : Crew n) (every : Nat) (m : Machine) (hi : i.actor? = none) :
    (m.plan crew every i).Calls fun _ c => IsQuestion c := by
  cases i with
  | sleep duration =>
    have hoperand := ((duration.eval_asks crew m.vars).andThen fun v =>
      asks_lift (v.asNumber "sleep")).calls
    have hrest : (duration.rest crew m.vars).Calls fun _ c => IsQuestion c :=
      hoperand.bind fun seconds => (asks_lift _).calls.bind fun d => trivial
    exact hrest.bind fun _ => trivial
  | logWindow who path =>
    have hchain : (windowChain path).Calls IsQuestion := by
      refine ⟨nofun, fun text => ?_⟩
      cases text <;> trivial
    have hlines : (windowLines crew path (who.pick n)).Calls fun _ c => IsQuestion c :=
      (eachRun_calls hchain (who.pick n)).bind fun _ => trivial
    rw [plan_logWindow]
    exact hlines.bind fun _ => trivial
  | act who a =>
    cases a with
    | waitFor wait => exact (wait.perform_questions every (who.pick n)).bind fun _ => trivial
    | _ => cases hi
  | loadPlaystyle who text => cases hi
  | _ => exact (m.plan_inquires crew every rfl).1.calls

theorem countP_deed {vars : Variables} {j : Fin n} {l : List (Event n)} (h : i.Deed crew vars j l) :
    l.countP Event.isDeed = 1 := by
  cases h <;> rfl

variable [ClientModel σ] {alarm : Alarm} {fuel : Nat} {w w' : World σ n} {m' : Machine}
  {r : StepResult}

/-- An instruction that has been carried out has begun one action on each client it acts on. -/
theorem deeds_of_isDone (hrunning : m.running = true) (hi : m.instruction? = some i)
    (hstep : m.step crew every alarm fuel w = (r, w', m')) (hr : r.isDone = true) (j : Fin n) :
    w'.deeds j = w.deeds j + if i.actsOn j then 1 else 0 := by
  obtain ⟨u, effect, hrun, rfl, -⟩ := run_of_isDone hrunning hi hstep hr
  rw [deeds_log]
  cases hwho : i.actor? with
  | none =>
    have hadds := (plan_questions crew every m hwho).run_adds crew alarm fuel w
    rw [hrun] at hadds
    have hsame : u.deeds j = w.deeds j := hadds.deeds_eq
    simp [Instruction.actsOn, hwho, hsame]
  | some who =>
    obtain ⟨-, hothers, chain, hperformed, hdeed⟩ := performed_of_acts hwho hrun
    have hpick : j ∈ who.pick n ↔ who.includes j = true := by simp [Selector.pick]
    by_cases hj : who.includes j = true
    · obtain ⟨a, l, htalk, htranscript⟩ := hperformed.told j (hpick.2 hj)
      rw [deeds_of_talk htalk, countP_deed (hdeed j (hpick.2 hj) a l htranscript)]
      simp [Instruction.actsOn, hwho, hj]
    · rw [deeds, hothers j (mt hpick.1 hj)]
      simp [Instruction.actsOn, hwho, hj, deeds]

/-- A step on dry-run clients keeps their counts right. -/
theorem tallied_of_isDone {w w' : World DryRun n} (hrunning : m.running = true)
    (hi : m.instruction? = some i) (hstep : m.step crew every alarm fuel w = (r, w', m'))
    (hr : r.isDone = true) (h : w.Tallied) :
    w'.Tallied := by
  obtain ⟨u, effect, hrun, rfl, -⟩ := run_of_isDone hrunning hi hstep hr
  have hdealt := Running.run_dealt crew alarm fuel w (.ofActivity (m.plan crew every i))
  rw [← Activity.run, hrun] at hdealt
  intro j
  rw [log_clients, deeds_log]
  exact hdealt.tallied h j

end Machine

end BotScript
