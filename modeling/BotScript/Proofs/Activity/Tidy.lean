import BotScript.Proofs.Activity.Ensures
import BotScript.Proofs.Activity.Members

/-!
# Tidy activities

The activities of instructions keep a discipline that no type enforces. Actions are started on the
selected clients in order, on each of them once, before they are waited for together. Questions are
asked and groups are run only while no action is under way, and a group is made of the selected
clients too. The discipline is a condition on the tree of calls, and an activity on its way keeps
it.

## Main definitions

* `Chain.Regular`: what the chains of a group are like.
* `Activity.Tidy`: an activity keeps the discipline, given the clients on which it has
  started actions.
* `Running.Tidy`: the same, for an activity on its way.
* `Running.Comes`: what an activity comes to in the course of a run.

## Main results

* `Activity.Tidy.bind`: the discipline of an activity with a sequel.
* `Running.Comes.tidy`: what a tidy activity comes to is tidy.
* `Running.exists_comes`: a run ends, or is out of fuel, at what the activity comes to.
-/

namespace BotScript

variable {σ : Type} {n : Nat} {κ : AnswerKind} {α β : Type}

/-- A window is not there. -/
def Fault.IsMissingWindow (f : Fault) : Prop := ∃ path, f = .windowNotFound path

/-- A chain fails of itself only for want of a window, and rests for a fixed time when it polls. -/
def Chain.Regular (every : Nat) : Chain κ → Prop
  | .done _ => True
  | .fail f => f.IsMissingWindow
  | .call _ next => ∀ a, (next a).Regular every
  | .rest _ next => next.Regular every
  | .focus next => next.Regular every
  | .poll _ _ ms next => ms = every ∧ next.Regular every

/-! ### Activities -/

namespace Activity

/-- An activity over selected clients that has started actions on some of them keeps the discipline;
at its end, its result and the clients on which actions are still under way satisfy a condition. -/
def Tidy (every : Nat) (selected : List (Fin n)) (Q : α → List (Fin n) → Prop) :
    Activity n α → List (Fin n) → Prop
  | .done x, started => Q x started
  | .fail _, _ => True
  | .ask _ _ next, started => started = [] ∧ ∀ a, (next a).Tidy every selected Q []
  | .pause _ next, started => next.Tidy every selected Q started
  | .launch who _ next, started =>
    (∀ i ∈ started, i < who) ∧ next.Tidy every selected Q (started ++ [who])
  | .join next, started => started = selected ∧ next.Tidy every selected Q []
  | .gather chains next, started =>
    started = [] ∧ chains.map Prod.fst = selected ∧ (∀ c ∈ chains, c.2.Regular every) ∧
      ∀ as, (next as).Tidy every selected Q []

variable {every : Nat} {Q : α → List (Fin n) → Prop} {R : β → List (Fin n) → Prop}
  {selected started : List (Fin n)}

/-- The discipline of an activity with a sequel. -/
theorem Tidy.bind {a : Activity n α} {f : α → Activity n β} (ha : a.Tidy every selected Q started)
    (hf : ∀ x started, Q x started → (f x).Tidy every selected R started) :
    (a.bind f).Tidy every selected R started := by
  induction a generalizing started with
  | done x => exact hf x started ha
  | fail e => trivial
  | ask who c next ih => exact ⟨ha.1, fun a => ih a (ha.2 a)⟩
  | pause ms next ih => exact ih ha
  | launch who c next ih => exact ⟨ha.1, ih ha.2⟩
  | join next ih => exact ⟨ha.1, ih ha.2⟩
  | gather chains next ih => exact ⟨ha.1, ha.2.1, ha.2.2.1, fun as => ih as (ha.2.2.2 as)⟩

/-- The condition at the end may make use of what holds of every result. -/
theorem Tidy.mono {P : Fault → Prop} {S : α → Prop} {Q' : α → List (Fin n) → Prop}
    {a : Activity n α} (ha : a.Tidy every selected Q started) (hresult : a.Ensures P S)
    (hQ : ∀ x started, Q x started → S x → Q' x started) : a.Tidy every selected Q' started := by
  induction a generalizing started with
  | done x => exact hQ x started ha hresult
  | fail e => trivial
  | ask who c next ih => exact ⟨ha.1, fun a => ih a (ha.2 a) (hresult a)⟩
  | pause ms next ih => exact ih ha hresult
  | launch who c next ih => exact ⟨ha.1, ih ha.2 hresult⟩
  | join next ih => exact ⟨ha.1, ih ha.2 hresult⟩
  | gather chains next ih =>
    exact ⟨ha.1, ha.2.1, ha.2.2.1, fun as => ih as (ha.2.2.2 as) (hresult.2 as)⟩

/-- What may be faulty starts nothing. -/
theorem tidy_lift {e : Except Fault α} (h : ∀ x, e = .ok x → Q x started) :
    (lift e : Activity n α).Tidy every selected Q started := by
  cases e with
  | ok x => exact h x rfl
  | error f => trivial

end Activity

/-! ### Activities on their way -/

/-- An action that was started: one call, and nothing after it. -/
def Member.IsStarted (m : Member n κ) : Prop :=
  ∃ (c : Call κ) (due : Option Nat) (result : Except ClientError κ.Answer),
    m.stage = .calling c due result .done

/-- Where an activity stands, given the clients on which it has started actions. -/
def Phase.Tidy (every : Nat) (selected started : List (Fin n)) : Phase n α → Prop
  | .going a => a.Tidy every selected (fun _ _ => True) started
  | .asking _ _ _ _ next => started = [] ∧ ∀ a, (next a).Tidy every selected (fun _ _ => True) []
  | .pausing _ next => next.Tidy every selected (fun _ _ => True) started
  | .grouped g next =>
    started = [] ∧ g.members.map Member.who = selected ∧
      ∀ as, (next as).Tidy every selected (fun _ _ => True) []

/-- An activity on its way keeps the discipline, with the actions it has started. -/
structure Running.Tidy (every : Nat) (selected : List (Fin n)) (r : Running n α) : Prop where
  ordered : selected.Pairwise (· < ·)
  started : ∀ m ∈ r.launched, m.IsStarted
  inOrder : (r.launched.map Member.who).Pairwise (· < ·)
  phase : r.phase.Tidy every selected (r.launched.map Member.who)

namespace Group

theorem map_who_ofChains (chains : List (Fin n × Chain κ)) :
    (ofChains chains).members.map Member.who = chains.map Prod.fst := by
  simp [ofChains, List.map_map, Function.comp_def]

/-- A member that does something keeps its place. -/
theorem map_who_move [ClientModel σ] (crew : Crew n) (w : World σ n) (g : Group n κ) (i : Nat) :
    (g.move crew w i).1.members.map Member.who = g.members.map Member.who := by
  unfold move
  split
  · rfl
  · rename_i m hm
    obtain ⟨hi, rfl⟩ := List.getElem?_eq_some_iff.mp hm
    simp only [List.map_set, Member.move_who]
    have hlength : i < (g.members.map Member.who).length := by simpa using hi
    have hself : (g.members.map Member.who).set i (g.members.map Member.who)[i] =
        g.members.map Member.who := List.set_getElem_self hlength
    rwa [List.getElem_map] at hself

end Group

namespace Running

variable {every : Nat} {selected : List (Fin n)} {crew : Crew n} {alarm : Alarm} {w w' : World σ n}
  {r r' : Running n α}

theorem tidy_ofActivity (hordered : selected.Pairwise (· < ·)) {a : Activity n α}
    (h : a.Tidy every selected (fun _ _ => True) []) : (ofActivity a).Tidy every selected :=
  ⟨hordered, by simp [ofActivity], by simp [ofActivity], h⟩

theorem Tidy.wake (h : r.Tidy every selected) : r.wake.Tidy every selected := by
  obtain ⟨launched, phase⟩ := r
  obtain ⟨hordered, hstarted, horder, hphase⟩ := h
  cases phase <;> exact ⟨hordered, hstarted, horder, hphase⟩

/-- One thing that an activity does keeps the discipline. -/
theorem Tidy.advance [ClientModel σ] (h : r.Tidy every selected)
    (hadv : r.advance crew w = .moved w' r') : r'.Tidy every selected := by
  obtain ⟨launched, phase⟩ := r
  obtain ⟨hordered, hstarted, horder, hphase⟩ := h
  cases phase with
  | going a =>
    cases a with
    | done x => cases hadv
    | fail f => cases hadv
    | ask who c next =>
      cases hadv
      exact ⟨hordered, hstarted, horder, hphase⟩
    | pause ms next =>
      cases hadv
      exact ⟨hordered, hstarted, horder, hphase⟩
    | launch who c next =>
      cases hadv
      refine ⟨hordered, ?_, ?_, ?_⟩
      · intro m hm
        rcases List.mem_append.mp hm with hm | hm
        · exact hstarted m hm
        · rw [List.mem_singleton.mp hm]
          exact ⟨_, _, _, rfl⟩
      · rw [List.map_append, List.pairwise_append]
        exact ⟨horder, List.pairwise_singleton _ _, by simpa using hphase.1⟩
      · rw [List.map_append]
        exact hphase.2
    | join next =>
      -- What was started becomes the group, and nothing is under way outside of it.
      cases hadv
      exact ⟨hordered, by simp, by simp, rfl, hphase.1, fun _ => hphase.2⟩
    | gather chains next =>
      cases hadv
      refine ⟨hordered, hstarted, horder, hphase.1, ?_, hphase.2.2.2⟩
      rw [Group.map_who_ofChains]
      exact hphase.2.1
  | asking who c due result next =>
    simp only [Running.advance] at hadv
    split at hadv
    · cases result with
      | ok a =>
        cases hadv
        refine ⟨hordered, hstarted, horder, ?_⟩
        obtain ⟨hnone, hnext⟩ := hphase
        -- A question is asked only while nothing is under way.
        rw [hnone]
        exact hnext a
      | error e => cases hadv
    · cases hadv
  | pausing due next =>
    simp only [Running.advance] at hadv
    split at hadv
    · cases hadv
      exact ⟨hordered, hstarted, horder, hphase⟩
    · cases hadv
  | grouped g next =>
    obtain ⟨hnone, hgroup, hnext⟩ := hphase
    simp only [Running.advance] at hadv
    split at hadv
    · cases hadv
      refine ⟨hordered, hstarted, horder, ?_⟩
      rw [hnone]
      exact hnext _
    · cases hadv
    · split at hadv
      · cases hadv
        refine ⟨hordered, hstarted, horder, hnone, ?_, hnext⟩
        rw [Group.map_who_move]
        exact hgroup
      · cases hadv

/-- A small step keeps the discipline. -/
theorem Tidy.tick [ClientModel σ] (h : r.Tidy every selected)
    (htick : r.tick crew alarm w = .on w' r') : r'.Tidy every selected := by
  rcases of_tick_on htick with hadv | ⟨till, t, -, rfl, rfl⟩
  · exact h.advance hadv
  · exact h.wake

/-- What an activity comes to in the course of a run, and the world by then. The run may be stopped
before, as the alarm counts the small steps. -/
inductive Comes [ClientModel σ] (crew : Crew n) (alarm : Alarm) (w : World σ n) (r : Running n α) :
    World σ n → Running n α → Prop
  | start : Comes crew alarm w r w r
  | tick {w₁ w₂ : World σ n} {r₁ r₂ : Running n α} (h : Comes crew alarm w r w₁ r₁)
      (htick : r₁.tick crew alarm w₁ = .on w₂ r₂) : Comes crew alarm w r w₂ r₂

variable [ClientModel σ]

/-- What a tidy activity comes to is tidy. -/
theorem Comes.tidy (hcomes : Comes crew alarm w r w' r') (h : r.Tidy every selected) :
    r'.Tidy every selected := by
  induction hcomes with
  | start => exact h
  | tick _ htick ih => exact ih.tick htick

theorem Comes.head {w₁ : World σ n} {r₁ : Running n α} (htick : r.tick crew alarm w = .on w₁ r₁)
    (hcomes : Comes crew alarm w₁ r₁ w' r') : Comes crew alarm w r w' r' := by
  induction hcomes with
  | start => exact .tick .start htick
  | tick _ hlast ih => exact .tick ih hlast

theorem Comes.of_moved (h : Comes crew alarm.moved w r w' r') : Comes crew alarm w r w' r' := by
  induction h with
  | start => exact .start
  | tick _ htick ih => exact .tick ih (tick_of_moved htick)

/-- A run ends, or is out of fuel, at what the activity comes to. By then the alarm has counted the
small steps, if it does so. -/
theorem exists_comes (crew : Crew n) (alarm : Alarm) (fuel : Nat) (w : World σ n)
    (r : Running n α) : ∃ later w' r', Comes crew alarm w r w' r' ∧
      (alarm.moved = alarm → later = alarm) ∧
      (r.run crew alarm fuel w = .outOfFuel w' ∨
        r'.tick crew later w' = .halt (r.run crew alarm fuel w)) := by
  induction fuel generalizing alarm w r with
  | zero => exact ⟨alarm, w, r, .start, fun _ => rfl, .inl rfl⟩
  | succ fuel ih =>
    cases htick : r.tick crew alarm w with
    | halt o =>
      rw [run_succ_halt htick]
      exact ⟨alarm, w, r, .start, fun _ => rfl, .inr htick⟩
    | on w₁ r₁ =>
      rw [run_succ_on_moved htick]
      obtain ⟨later, w', r', hcomes, hlater, hend⟩ := ih alarm.moved w₁ r₁
      refine ⟨later, w', r', hcomes.of_moved.head htick, fun hmoved => ?_, hend⟩
      rw [hlater (congrArg Alarm.moved hmoved), hmoved]

theorem exists_comes_timed (crew : Crew n) (alarm : Alarm) [alarm.Timed] (fuel : Nat)
    (w : World σ n) (r : Running n α) : ∃ w' r', Comes crew alarm w r w' r' ∧
      (r.run crew alarm fuel w = .outOfFuel w' ∨
        r'.tick crew alarm w' = .halt (r.run crew alarm fuel w)) := by
  obtain ⟨later, w', r', hcomes, hlater, hend⟩ := exists_comes crew alarm fuel w r
  rw [hlater Alarm.Timed.moved] at hend
  exact ⟨w', r', hcomes, hend⟩

end Running

end BotScript
