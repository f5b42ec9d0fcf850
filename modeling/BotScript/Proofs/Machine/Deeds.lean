import BotScript.Proofs.Machine.Actions

/-!
# Everybody is acted on once

An instruction that acts on clients, and is carried out, leaves a trace of one deed with each
selected client and of nothing with anybody else. A deed is one call with the values of the
operands, made and answered. Only a teleport to a quest is two: each client is asked for the
position of its own quest, and teleported there.

## Main definitions

* `Instruction.actor?`: the selector of an instruction that acts on clients.
* `Instruction.Deed`: what is noted down of a client that is acted on.

## Main results

* `Machine.plan_acts`: an instruction that acts sends all selected clients through one
  chain, or is futile.
* `Machine.acts_once`: what an instruction that acts leaves, when it is carried out.
-/

namespace BotScript

open Activity World Cast

variable {σ : Type} {n : Nat} {κ : AnswerKind}

namespace Instruction

/-- The selector of an instruction that acts on clients. -/
def actor? : Instruction → Option Selector
  | .act _ (.waitFor _) => none
  | .act who _ => some who
  | .loadPlaystyle who _ => some who
  | _ => none

theorem actor?_of_isStarted {a : Action} (h : a.isStarted = true) (who : Selector) :
    (Instruction.act who a).actor? = some who := by
  cases a with
  | waitFor wait => cases h
  | _ => rfl

/-- What is noted down of a client that an instruction acts on: the call that it demands and the end
of it, or the same for the position of the quest and a teleport to the position that was told. -/
inductive Deed (crew : Crew n) (vars : Variables) (j : Fin n) : Instruction → List (Event n) → Prop
  | action {who : Selector} {a : Action} {c : Call .nothing} (h : a.Demands crew vars c)
      (t t' : Nat) :
      Deed crew vars j (.act who a) [.made t j c false, .answered t' j c ()]
  | playstyle {who : Selector} {text : String} (t t' : Nat) :
      Deed crew vars j (.loadPlaystyle who text)
        [.made t j (.loadPlaystyle text) false, .answered t' j (.loadPlaystyle text) ()]
  | quest {who : Selector} (p : Position) (t₁ t₂ t₃ t₄ : Nat) :
      Deed crew vars j (.act who (.teleport .quest))
        [.made t₁ j .questPosition false, .answered t₂ j .questPosition p,
          .made t₃ j (.teleport p) false, .answered t₄ j (.teleport p) ()]

end Instruction

/-! ### Transcripts of deeds -/

namespace Chain

variable {crew : Crew n} {j : Fin n} {a : Unit} {l : List (Event n)}

theorem Transcript.of_once {c : Call .nothing} (h : (Chain.once c).Transcript crew j (.ok a) l) :
    ∃ t t', l = [.made t j c false, .answered t' j c ()] := by
  cases h with
  | answered t t' hdone =>
    cases hdone
    exact ⟨t, t', rfl⟩

theorem Transcript.of_friendChain {f : Friend} (h : (friendChain f).Transcript crew j (.ok a) l) :
    ∃ t t', l = [.made t j (.toFriend f) false, .answered t' j (.toFriend f) ()] := by
  cases h with
  | focus honce => exact honce.of_once

theorem Transcript.of_questChain (h : questChain.Transcript crew j (.ok a) l) :
    ∃ p t₁ t₂ t₃ t₄, l = [.made t₁ j .questPosition false, .answered t₂ j .questPosition p,
      .made t₃ j (.teleport p) false, .answered t₄ j (.teleport p) ()] := by
  cases h with
  | answered t₁ t₂ hteleport =>
    obtain ⟨t₃, t₄, rfl⟩ := hteleport.of_once
    exact ⟨_, t₁, t₂, t₃, t₄, rfl⟩

/-- What holds of every call holds of the calls of a chain. -/
theorem calls_of_forall {P : Sigma Call → Prop} (hP : ∀ c, P c) (c : Chain κ) : c.Calls P := by
  induction c with
  | done a => trivial
  | fail f => trivial
  | call c next ih => exact ⟨hP _, ih⟩
  | rest ms next ih => exact ih
  | focus next ih => exact ih
  | poll c enough every next ih => exact ⟨hP _, ih⟩

end Chain

namespace Machine

variable {crew : Crew n} {every : Nat} {m : Machine} {i : Instruction} {who : Selector}

/-- An instruction that acts on clients sends those it selects through one chain, side by side or
started one after the other, and whoever has gone through it has been acted on. Otherwise it comes
to nothing. -/
theorem plan_acts (crew : Crew n) (every : Nat) (m : Machine) (hwho : i.actor? = some who) :
    (∃ c, (∀ j ∈ who.pick n, ∀ t t',
      i.Deed crew m.vars j [.made t j c false, .answered t' j c ()]) ∧
      m.plan crew every i = launchAll c (.done ⟨m.next, []⟩) (who.pick n)) ∨
    (∃ chain : Chain .nothing, chain.CallsFirst ∧
      (∀ j a l, chain.Transcript crew j (.ok a) l → i.Deed crew m.vars j l) ∧
      m.plan crew every i =
        .gather ((who.pick n).map fun j => (j, chain)) fun _ => .done ⟨m.next, []⟩) ∨
    (m.plan crew every i).Futile := by
  cases i with
  | act who' a =>
    have hplan : m.plan crew every (.act who' a) =
        (a.perform crew every m.vars (who'.pick n)).bind fun _ => .done ⟨m.next, []⟩ := rfl
    -- Actions that need the focus or an answer first are chains; all others are started at once.
    by_cases hstarted : a.isStarted = true
    · rw [Instruction.actor?_of_isStarted hstarted] at hwho
      cases hwho
      rw [hplan]
      rcases a.perform_cases crew every m.vars (who.pick n) hstarted with
        ⟨c, hdemands, hperform⟩ | ⟨hnobody, hperform⟩ | hfutile
      · refine .inl ⟨c, fun j _ t t' => .action hdemands t t', ?_⟩
        rw [hperform, allDo_bind]
      · -- With nobody selected, it does not matter what they would be told.
        refine .inl ⟨.relog, fun j hj => ?_, ?_⟩
        · rw [hnobody] at hj
          cases hj
        · rw [hperform, hnobody]
          rfl
      · exact .inr (.inr (hfutile.bind _))
    · cases a with
      | teleport goal =>
        cases hwho
        cases goal with
        | quest =>
          refine .inr (.inl ⟨questChain, trivial, fun j a l hl => ?_, rfl⟩)
          obtain ⟨p, t₁, t₂, t₃, t₄, rfl⟩ := hl.of_questChain
          exact .quest p t₁ t₂ t₃ t₄
        | friendIcon =>
          refine .inr (.inl ⟨friendChain topFriend, trivial, fun j a l hl => ?_, rfl⟩)
          obtain ⟨t, t', rfl⟩ := hl.of_friendChain
          exact .action .toTopFriend t t'
        | friendName name =>
          refine .inr (.inl ⟨friendChain (.name name), trivial, fun j a l hl => ?_, rfl⟩)
          obtain ⟨t, t', rfl⟩ := hl.of_friendChain
          exact .action (.toFriend name) t t'
        | position | entity | entityLike | mob => exact absurd rfl hstarted
      | waitFor wait => cases hwho
      | sendKey | click | goTo | usePotion | buyPotions | relog | toZone =>
        exact absurd rfl hstarted
  | loadPlaystyle who' text =>
    cases hwho
    refine .inl ⟨.loadPlaystyle text, fun j _ t t' => .playstyle t t', ?_⟩
    exact allDo_bind (who.pick n) (.loadPlaystyle text) fun _ => .done (⟨m.next, []⟩ : Effect)
  | _ => cases hwho

variable [ClientModel σ] {fuel : Nat} {alarm : Alarm} {w w' : World σ n} {m' : Machine}
  {r : StepResult}

/-- A step that is done is one of a plan that has come to a result. -/
theorem run_of_step_done (hrunning : m.running = true) (hi : m.instruction? = some i)
    (hstep : m.step crew every alarm fuel w = (r, w', m')) (hdone : r.isDone = true) :
    ∃ u effect, (m.plan crew every i).run crew alarm fuel w = .ended u (.ok effect) ∧
      w' = u.log effect.lines := by
  obtain ⟨u, effect, hrun, hlog, -⟩ := run_of_isDone hrunning hi hstep hdone
  exact ⟨u, effect, hrun, hlog⟩

/-- An instruction that acts, and has come to its end, has sent all selected clients through one
chain, and has called nobody else. -/
theorem performed_of_acts (hwho : i.actor? = some who) {u : World σ n} {effect : Effect}
    (hrun : (m.plan crew every i).run crew alarm fuel w = .ended u (.ok effect)) :
    effect.lines = [] ∧ (∀ j, j ∉ who.pick n → u.talk j = w.talk j) ∧
      ∃ chain : Chain .nothing, w.Performed crew chain (who.pick n) u ∧
        ∀ j ∈ who.pick n, ∀ a l, chain.Transcript crew j (.ok a) l → i.Deed crew m.vars j l := by
  have hnodup := who.pick_nodup n
  rcases plan_acts crew every m hwho with
    ⟨c, hdeed, hplan⟩ | ⟨chain, hfirst, hdeed, hplan⟩ | hfutile
  · have hcalls := launchAll_calls (who.pick n) c (⟨m.next, []⟩ : Effect)
    have hadds := hcalls.run_adds crew alarm fuel w
    rw [hplan] at hrun
    rw [hrun] at hadds
    obtain ⟨rfl, hperformed⟩ := performed_of_launchAll hnodup hrun
    refine ⟨rfl, fun j hj => hadds.talk_eq fun d hd => hj hd.1, .once c, hperformed,
      fun j hj a l hl => ?_⟩
    obtain ⟨t, t', rfl⟩ := hl.of_once
    exact hdeed j hj t t'
  · have hcalls : (Activity.gather ((who.pick n).map fun j => (j, chain)) fun _ =>
        .done (⟨m.next, []⟩ : Effect)).Calls fun j _ => j ∈ who.pick n := by
      refine ⟨fun c hc => ?_, fun _ => trivial⟩
      obtain ⟨j, hj, rfl⟩ := List.mem_map.1 hc
      exact chain.calls_of_forall fun _ => hj
    have hadds := hcalls.run_adds crew alarm fuel w
    rw [hplan] at hrun
    rw [hrun] at hadds
    obtain ⟨rfl, hperformed⟩ := performed_of_gather hnodup hfirst hrun
    exact ⟨rfl, fun j hj => hadds.talk_eq fun _ => hj, chain, hperformed, fun j _ => hdeed j⟩
  · exact (hfutile.2.of_run_ok (fun _ _ => trivial) hrun).elim

/-- When an instruction that acts on clients has been carried out, every client that its selector
includes has been acted on exactly once, and nothing has been noted down of anybody else. If no two
selected clients share the input focus, they were first called in order; this, unlike the rest,
depends on members of a group that can go on never being held back. -/
theorem acts_once (crew : Crew n) (every : Nat) (alarm : Alarm) (fuel : Nat) (w : World σ n)
    {m m' : Machine} {i : Instruction} {who : Selector} {r : StepResult} {w' : World σ n}
    (hrunning : m.running = true) (hi : m.instruction? = some i) (hwho : i.actor? = some who)
    (hstep : m.step crew every alarm fuel w = (r, w', m')) (hdone : r.isDone = true) :
    (∀ j : Fin n, who.includes j = true →
      ∃ l, w'.talk j = w.talk j ++ l ∧ i.Deed crew m.vars j l) ∧
    (∀ j : Fin n, who.includes j = false → w'.talk j = w.talk j) ∧
    (crew.Apart (who.pick n) → ((w.since w').filterMap Event.caller?).eraseDups = who.pick n) := by
  obtain ⟨u, effect, hrun, hlog⟩ := run_of_step_done hrunning hi hstep hdone
  obtain ⟨hlines, hothers, chain, hperformed, hdeed⟩ := performed_of_acts hwho hrun
  obtain rfl : w' = u := by rw [hlog, hlines]; rfl
  have hpick : ∀ j : Fin n, j ∈ who.pick n ↔ who.includes j = true := by simp [Selector.pick]
  refine ⟨fun j hj => ?_, fun j hj => hothers j ?_, fun hapart => ?_⟩
  · obtain ⟨a, l, htalk, htranscript⟩ := hperformed.told j ((hpick j).2 hj)
    exact ⟨l, htalk, hdeed j ((hpick j).2 hj) a l htranscript⟩
  · rw [hpick, hj]
    exact nofun
  · obtain ⟨events, hjournal, hfirst⟩ := hperformed.inOrder hapart
    have hsince : w.since w' = events.reverse := by
      apply since_of_history
      rw [history, hjournal, List.reverse_append]
      rfl
    rw [hsince]
    exact hfirst

/-- Three clients with quests of their own, of which the first one is the slowest. -/
def questers : World Rehearsal 3 :=
  .initial #v[quester ⟨1, 1, 1⟩ 50, quester ⟨2, 2, 2⟩ 10, quester ⟨3, 3, 3⟩ 20]

/-- The second client. -/
def secondClient : PlayerSet := ⟨[1], by simp⟩

/-- All but the second client. -/
def butSecond : Selector := .except secondClient

/-- Two of three clients are teleported to their quests. -/
theorem questers_act_once :
    let m := about (.act butSecond (.teleport .quest))
    let step := m.step party 100 ⟨none, none⟩ 30 questers
    m.running = true ∧ step = (.done 0, step.2.1, step.2.2) ∧ party.Apart (butSecond.pick 3) ∧
      (∃ l, step.2.1.talk 2 = questers.talk 2 ++ l ∧
        Instruction.Deed party m.vars 2 (.act butSecond (.teleport .quest)) l) ∧
      step.2.1.talk 1 = questers.talk 1 ∧
      ((questers.since step.2.1).filterMap Event.caller?).eraseDups = butSecond.pick 3 := by
  intro m step
  have hstep : step = (.done 0, step.2.1, step.2.2) := rfl
  have hapart : party.Apart (butSecond.pick 3) := by decide
  obtain ⟨hselected, hothers, horder⟩ :=
    acts_once party 100 ⟨none, none⟩ 30 questers (m := m) rfl rfl rfl hstep rfl
  exact ⟨rfl, hstep, hapart, hselected 2 (by decide), hothers 1 (by decide), horder hapart⟩

end Machine

end BotScript
