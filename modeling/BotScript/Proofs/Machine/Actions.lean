import BotScript.Proofs.Activity.Performed
import BotScript.Proofs.Machine.Typing

/-!
# Operands before actions

An action has operands, which may ask clients questions before they have a value, or never have one.
But an operand that asks a question yields a truth value, and no action takes one. So an action
whose operands have values has them at once, and is then started on all selected clients; otherwise
nobody is acted on.

## Main definitions

* `Activity.Futile`: an activity asks questions and comes to no result.
* `Action.Demands`: the call that an action is, once its operands have their values.

## Main results

* `Expr.evalKey_cases`, `Expr.evalNumber_cases`, `Expr.evalPosition_cases`: an operand has its value
  at once, or never.
* `Action.perform_cases`: an action is one call to each client, or futile.
* `Machine.operand_faults_act_on_nobody`: who is acted on if an action fails.
-/

namespace BotScript

open Activity World Cast

variable {σ : Type} {n : Nat} {α β : Type} {crew : Crew n} {vars : Variables}

namespace Activity

/-- An activity asks questions, does nothing else, and comes to no result. -/
def Futile (a : Activity n α) : Prop := a.Asks ∧ a.Ensures (fun _ => True) fun _ => False

theorem futile_fail (f : Fault) : (fail f : Activity n α).Futile := ⟨trivial, trivial⟩

/-- Whatever is to follow a futile activity is never begun. -/
theorem Futile.bind {a : Activity n α} (h : a.Futile) (f : α → Activity n β) :
    (a.bind f).Futile := by
  constructor
  · exact h.1.bind h.2 fun _ hfalse => hfalse.elim
  · exact h.2.bind fun _ hfalse => hfalse.elim

/-- What has its result at once or never, and does nothing but ask. -/
theorem Prompt.done_or_futile {a : Activity n α} (h : a.Prompt fun _ => False) (hasks : a.Asks) :
    (∃ x, a = .done x) ∨ a.Futile := by
  rcases h with ⟨result, rfl⟩ | hnever
  · cases result with
    | ok x => exact .inl ⟨x, rfl⟩
    | error f => exact .inr (futile_fail f)
  · exact .inr ⟨hasks, hnever⟩

end Activity

/-! ### Operands -/

namespace Expr

variable (crew : Crew n) (vars : Variables) (e : Expr)

/-- An operand that is no truth value is there at once, or never. -/
private theorem operand_cases {f : Value → Except Fault α}
    (hf : ∀ b, ∃ fault, f (.bool b) = .error fault) :
    (∃ x, ((e.eval crew vars).bind fun v => lift (f v)) = .done x) ∨
      ((e.eval crew vars).bind fun v => lift (f v)).Futile := by
  refine Prompt.done_or_futile ?_ ((e.eval_asks crew vars).andThen fun v => asks_lift _)
  refine (e.eval_prompt crew vars).bind (fun v => prompt_lift _) ?_
  rintro _ ⟨b, rfl⟩
  obtain ⟨fault, hfault⟩ := hf b
  rw [hfault]
  trivial

theorem evalKey_cases : (∃ k, e.evalKey crew vars = .done k) ∨ (e.evalKey crew vars).Futile :=
  e.operand_cases crew vars fun _ => ⟨_, rfl⟩

theorem evalNumber_cases (context : String) :
    (∃ x, e.evalNumber crew vars context = .done x) ∨ (e.evalNumber crew vars context).Futile :=
  e.operand_cases crew vars fun _ => ⟨_, rfl⟩

theorem evalPosition_cases (context : String) :
    (∃ p, e.evalPosition crew vars context = .done p) ∨ (e.evalPosition crew vars context).Futile :=
  e.operand_cases crew vars fun _ => ⟨_, rfl⟩

end Expr

/-! ### Actions -/

namespace Action

/-- The call that an action is to each client, once its operands have their values. -/
inductive Demands (crew : Crew n) (vars : Variables) : Action → Call .nothing → Prop
  | press {key seconds : Expr} {k : String} {s : Float} {d : Duration}
      (hkey : key.evalKey crew vars = .done k)
      (hs : seconds.evalNumber crew vars "sendkey" = .done s)
      (hd : secondsOperand "sendkey" s = .ok d) :
      Demands crew vars (.sendKey key (some seconds)) (.sendKey k s)
  | tap {key : Expr} {k : String} (hkey : key.evalKey crew vars = .done k) :
      Demands crew vars (.sendKey key none) (.sendKey k defaultHold)
  | click {x y : Expr} {a b : Float} {i j : Int32} (ha : x.evalNumber crew vars "click" = .done a)
      (hi : coordinate a = .ok i) (hb : y.evalNumber crew vars "click" = .done b)
      (hj : coordinate b = .ok j) : Demands crew vars (.click x y) (.click i j)
  | goTo {target : Expr} {p : Position} (h : target.evalPosition crew vars "goto" = .done p) :
      Demands crew vars (.goTo target) (.goTo p.x p.y)
  | toPosition {target : Expr} {p : Position}
      (h : target.evalPosition crew vars "teleport" = .done p) :
      Demands crew vars (.teleport (.position target)) (.teleport p)
  | toEntity (name : String) : Demands crew vars (.teleport (.entity name)) (.toEntity name)
  | toEntityLike (name : String) :
      Demands crew vars (.teleport (.entityLike name)) (.toEntityLike name)
  | toMob : Demands crew vars (.teleport .mob) .toMob
  | toTopFriend : Demands crew vars (.teleport .friendIcon) (.toFriend topFriend)
  | toFriend (name : String) :
      Demands crew vars (.teleport (.friendName name)) (.toFriend (.name name))
  | usePotion : Demands crew vars .usePotion .usePotion
  | buyPotions : Demands crew vars .buyPotions .buyPotions
  | relog : Demands crew vars .relog .relog
  | toZone (path : List String) : Demands crew vars (.toZone path) (.toZone path)

/-- Whether an action is started on all clients at once: it is no wait, and takes neither a question
to each client nor the input focus. -/
def isStarted : Action → Bool
  | .waitFor _ | .teleport .quest | .teleport .friendIcon | .teleport (.friendName _) => false
  | _ => true

/-- Whether an action has operands. -/
def hasOperands : Action → Bool
  | .sendKey .. | .click .. | .goTo _ | .teleport (.position _) => true
  | _ => false

theorem isStarted_of_hasOperands {a : Action} (h : a.hasOperands = true) : a.isStarted = true := by
  unfold hasOperands at h
  split at h
  · rfl
  · rfl
  · rfl
  · rfl
  · cases h

end Action

/-- If the position is there, everybody is sent there. -/
theorem allMove_of_done {target : Expr} {context : String} {p : Position}
    (h : target.evalPosition crew vars context = .done p) (c : Position → Call .nothing)
    (clients : List (Fin n)) :
    allMove crew vars context target c clients = allDo clients (c p) := by
  have hvisit : (fun who => target.evalPosition crew vars context >>= fun q => start who (c q)) =
      fun who => start who (c p) := by
    funext who
    rw [h]
    rfl
  rw [allMove, allDo, hvisit]

/-- If the position is never there, the first client is where it ends. -/
theorem allMove_of_futile {target : Expr} {context : String}
    (h : (target.evalPosition crew vars context).Futile) (c : Position → Call .nothing)
    (who : Fin n) (rest : List (Fin n)) :
    (allMove crew vars context target c (who :: rest)).Futile :=
  ((h.bind _).bind _).bind _

/-- A move is one call to each client, unless there is nobody to move, or futile. -/
theorem allMove_cases (crew : Crew n) (vars : Variables) (context : String) (target : Expr)
    (c : Position → Call .nothing) (clients : List (Fin n)) :
    (∃ p, target.evalPosition crew vars context = .done p ∧
      allMove crew vars context target c clients = allDo clients (c p)) ∨
      clients = [] ∧ allMove crew vars context target c clients = joined ∨
      (allMove crew vars context target c clients).Futile := by
  rcases target.evalPosition_cases crew vars context with ⟨p, hp⟩ | hfutile
  · exact .inl ⟨p, hp, allMove_of_done hp c clients⟩
  · cases clients with
    | nil => exact .inr (.inl ⟨rfl, rfl⟩)
    | cons who rest => exact .inr (.inr (allMove_of_futile hfutile c who rest))

/-- An action that is started on all clients is one call to each of them, unless there
is nobody, or futile. -/
theorem Action.perform_cases (crew : Crew n) (every : Nat) (vars : Variables)
    (clients : List (Fin n)) {a : Action} (ha : a.isStarted = true) :
    (∃ c, a.Demands crew vars c ∧ a.perform crew every vars clients = allDo clients c) ∨
      clients = [] ∧ a.perform crew every vars clients = joined ∨
      (a.perform crew every vars clients).Futile := by
  -- Operands are taken in order; behind one that has no value, nothing is begun.
  cases a with
  | sendKey key seconds =>
    rcases key.evalKey_cases crew vars with ⟨k, hk⟩ | hfutile
    · cases seconds with
      | none =>
        simp only [perform, hk, bind_eq, pure_eq, Activity.bind]
        cases hd : secondsOperand "sendkey" defaultHold with
        | ok d => exact .inl ⟨_, .tap hk, rfl⟩
        | error f => exact .inr (.inr (futile_fail f))
      | some e =>
        rcases e.evalNumber_cases crew vars "sendkey" with ⟨s, hs⟩ | hfutile
        · simp only [perform, hk, hs, bind_eq, Activity.bind]
          cases hd : secondsOperand "sendkey" s with
          | ok d => exact .inl ⟨_, .press hk hs hd, rfl⟩
          | error f => exact .inr (.inr (futile_fail f))
        · simp only [perform, hk, bind_eq, Activity.bind]
          exact .inr (.inr (hfutile.bind _))
    · exact .inr (.inr (hfutile.bind _))
  | click x y =>
    rcases x.evalNumber_cases crew vars "click" with ⟨s, hs⟩ | hfutile
    · simp only [perform, hs, bind_eq, Activity.bind]
      cases hi : coordinate s with
      | error f => exact .inr (.inr (futile_fail f))
      | ok i =>
        rcases y.evalNumber_cases crew vars "click" with ⟨t, ht⟩ | hfutile
        · simp only [lift, Activity.bind, ht]
          cases hj : coordinate t with
          | error f => exact .inr (.inr (futile_fail f))
          | ok j => exact .inl ⟨_, .click hs hi ht hj, rfl⟩
        · exact .inr (.inr (hfutile.bind _))
    · exact .inr (.inr (hfutile.bind _))
  | goTo target =>
    rcases allMove_cases crew vars "goto" target (fun p => .goTo p.x p.y) clients with
      ⟨p, hp, hmove⟩ | hother
    · exact .inl ⟨_, .goTo hp, hmove⟩
    · exact .inr hother
  | teleport goal =>
    cases goal with
    | position target =>
      rcases allMove_cases crew vars "teleport" target .teleport clients with
        ⟨p, hp, hmove⟩ | hother
      · exact .inl ⟨_, .toPosition hp, hmove⟩
      · exact .inr hother
    | entity name => exact .inl ⟨_, .toEntity name, rfl⟩
    | entityLike name => exact .inl ⟨_, .toEntityLike name, rfl⟩
    | mob => exact .inl ⟨_, .toMob, rfl⟩
    | quest | friendIcon | friendName => cases ha
  | usePotion => exact .inl ⟨_, .usePotion, rfl⟩
  | buyPotions => exact .inl ⟨_, .buyPotions, rfl⟩
  | relog => exact .inl ⟨_, .relog, rfl⟩
  | toZone path => exact .inl ⟨_, .toZone path, rfl⟩
  | waitFor wait => cases ha

/-- An action on all of some clients, with what follows it. -/
theorem allDo_bind (clients : List (Fin n)) (c : Call .nothing) (f : Unit → Activity n α) :
    (allDo clients c).bind f = launchAll c (f ()) clients := by
  induction clients with
  | nil => rfl
  | cons who rest ih => exact congrArg (launch who c) ih

theorem allDo_eq (clients : List (Fin n)) (c : Call .nothing) :
    allDo clients c = launchAll c (.done ()) clients := by
  rw [← Activity.bind_done (allDo clients c), allDo_bind]

/-- Starting an action makes no other calls. -/
theorem launchAll_calls (clients : List (Fin n)) (c : Call .nothing) (x : α) :
    (launchAll c (.done x) clients).Calls fun i d => i ∈ clients ∧ d = ⟨.nothing, c⟩ := by
  -- The condition speaks of all clients, so the induction is on a part of them.
  have hpart : ∀ part : List (Fin n), part ⊆ clients →
      (launchAll c (.done x) part).Calls fun i d => i ∈ clients ∧ d = ⟨.nothing, c⟩ := by
    intro part hsub
    induction part with
    | nil => trivial
    | cons i rest ih =>
      exact ⟨⟨hsub List.mem_cons_self, rfl⟩, ih fun j hj => hsub (List.mem_cons_of_mem _ hj)⟩
  exact hpart clients (List.Subset.refl _)

/-- Starting an action has no faults of its own. -/
theorem launchAll_ensures {P : Fault → Prop} (clients : List (Fin n)) (c : Call .nothing) (x : α) :
    (launchAll c (.done x) clients).Ensures P fun y => y = x := by
  induction clients with
  | nil => rfl
  | cons i rest ih => exact ih

/-! ### Events -/

namespace Event

/-- An event is about an action. -/
def IsAction (e : Event n) : Prop := e.IsAbout fun _ c => c.1 = .nothing

/-- A question has failed. -/
def IsRefusal (e : Event n) : Prop := e.isFailure = true ∧ e.IsAbout fun _ c => IsQuestion c

theorem call?_of_isAbout {P : Fin n → Sigma Call → Prop} {e : Event n} (h : e.IsAbout P) :
    ∃ i c, e.call? = some c ∧ P i c := by
  cases e with
  | made _ who | answered _ who | failed _ who | dropped _ who => exact ⟨who, _, rfl, h⟩
  | line text => exact h.elim

theorem not_isAction_of_question {P : Fin n → Sigma Call → Prop} {e : Event n} (h : e.IsAbout P)
    (hP : ∀ i c, P i c → IsQuestion c) : ¬ e.IsAction := by
  intro haction
  cases e with
  | made | answered | failed | dropped => exact hP _ _ h haction
  | line text => exact h

end Event

namespace Machine

variable [ClientModel σ] {every fuel : Nat} {alarm : Alarm} {w w' : World σ n} {m m' : Machine}
  {i : Instruction} {f : Fault}

/-- A step that fails is one of a plan that does. -/
theorem run_of_step_failed (hi : m.instruction? = some i)
    (hstep : m.step crew every alarm fuel w = (.failed f, w', m')) :
    (m.plan crew every i).run crew alarm fuel w = .ended w' (.error f) := by
  have hrunning : m.running = true := by
    by_contra hnot
    rw [step_of_not_running (by simpa using hnot)] at hstep
    cases hstep
  rw [step_of_instruction hrunning hi] at hstep
  cases hrun : (m.plan crew every i).run crew alarm fuel w with
  | ended u result =>
    cases result with
    | ok effect =>
      rw [hrun, conclude] at hstep
      split at hstep <;> cases hstep
    | error g =>
      rw [hrun] at hstep
      cases hstep
      rfl
  | cancelled | expired | never | outOfFuel =>
    rw [hrun] at hstep
    cases hstep

/-- If an action with operands fails with a fault of an operand, or because a question that an
operand asks fails, then nobody has been acted on. If somebody has, all operands had their values,
everything that happened is about the action they demand, and the fault is the failure of a
client. -/
theorem operand_faults_act_on_nobody (crew : Crew n) (every : Nat) (alarm : Alarm) (fuel : Nat)
    (w : World σ n) {m m' : Machine} {who : Selector} {a : Action} {f : Fault} {w' : World σ n}
    (hi : m.instruction? = some (.act who a)) (ha : a.hasOperands = true)
    (hstep : m.step crew every alarm fuel w = (.failed f, w', m')) :
    ((f.IsOperand ∨ ∃ e ∈ w.since w', e.IsRefusal) → ∀ e ∈ w.since w', ¬ e.IsAction) ∧
      ((∃ e ∈ w.since w', e.IsAction) → ∃ c, a.Demands crew m.vars c ∧
        (∃ title error, f = .client title error) ∧ ∀ e ∈ w.since w', e.call? = some
        ⟨.nothing, c⟩) := by
  have hrun := run_of_step_failed hi hstep
  have hplan : m.plan crew every (.act who a) =
      (a.perform crew every m.vars (who.pick n)).bind fun _ => .done ⟨m.next, []⟩ := rfl
  rw [hplan] at hrun
  rcases a.perform_cases crew every m.vars (who.pick n) (Action.isStarted_of_hasOperands ha) with
    ⟨c, hdemands, hperform⟩ | ⟨-, hperform⟩ | hfutile
  · -- All that happens is about the action, and it fails with a client.
    rw [hperform, allDo_bind] at hrun
    have hcalls := launchAll_calls (who.pick n) c (⟨m.next, []⟩ : Effect)
    have hadds := hcalls.run_adds crew alarm fuel w
    rw [hrun] at hadds
    have hensures : (launchAll c (.done ⟨m.next, []⟩) (who.pick n)).Ensures
        (fun f => ∃ title error, f = .client title error) fun y => y = (⟨m.next, []⟩ : Effect) :=
      launchAll_ensures (who.pick n) c _
    have hclient := hensures.of_run_error (fun title error => ⟨title, error, rfl⟩) hrun
    have hall : ∀ e ∈ w.since w', e.call? = some ⟨.nothing, c⟩ := by
      intro e he
      obtain ⟨i, d, hcall, -, rfl⟩ := Event.call?_of_isAbout (hadds.isAbout he)
      exact hcall
    refine ⟨?_, fun _ => ⟨c, hdemands, hclient, hall⟩⟩
    rintro (hoperand | ⟨e, he, -, hquestion⟩)
    · obtain ⟨title, error, rfl⟩ := hclient
      exact hoperand.elim
    · obtain ⟨i, d, hcall, hd⟩ := Event.call?_of_isAbout hquestion
      cases hcall.symm.trans (hall e he)
      exact absurd rfl hd
  · -- There is nobody to act on.
    have hnone : (joined.bind fun _ => .done ⟨m.next, []⟩ : Activity n Effect).Calls fun _ _ =>
        False := trivial
    rw [hperform] at hrun
    have hadds := hnone.run_adds crew alarm fuel w
    rw [hrun] at hadds
    have hnothing : ∀ e, e ∉ w.since w' := by
      intro e he
      obtain ⟨_, _, _, hfalse⟩ := Event.call?_of_isAbout (hadds.isAbout he)
      exact hfalse
    refine ⟨fun _ e he => absurd he (hnothing e), ?_⟩
    rintro ⟨e, he, -⟩
    exact absurd he (hnothing e)
  · -- All that happens are questions.
    have hcalls := (hfutile.bind fun _ => .done (⟨m.next, []⟩ : Effect)).1.calls
    have hadds := hcalls.run_adds crew alarm fuel w
    rw [hrun] at hadds
    have hquestions : ∀ e ∈ w.since w', ¬ e.IsAction := fun e he =>
      Event.not_isAction_of_question (hadds.isAbout he) fun _ _ h => h
    refine ⟨fun _ => hquestions, ?_⟩
    rintro ⟨e, he, haction⟩
    exact absurd haction (hquestions e he)

/-- All clients are to go to the opposite of whether they are in battle. -/
def muddled : Machine := about (.act .all (.goTo (.unary .negate (.ask .all .inBattle))))

/-- All clients are to go to a position. -/
def marching : Machine := about (.act .all (.goTo (.position (.number 1) (.number 2) (.number 3))))

/-- Two clients, of which the first one does not tell whether it is in battle and the
second one cannot walk. -/
def unfit : World Rehearsal 2 :=
  .initial #v[rehearsed "a" 50 [("battle", some "no")], rehearsed "b" 20 [("goto", some "no")]]

/-- Clients who tell that they are in battle, or do not tell it, are not sent anywhere; of those who
are sent to a position, one does not get there. -/
theorem muddled_acts_on_nobody :
    let told := muddled.step pair 100 ⟨none, none⟩ 30 unequal
    let untold := muddled.step pair 100 ⟨none, none⟩ 30 unfit
    let sent := marching.step pair 100 ⟨none, none⟩ 30 unfit
    (told = (.failed (.typeMismatch "negation" "number or xyz" .bool), told.2.1, muddled) ∧
      (unequal.since told.2.1).length = 4 ∧ ∀ e ∈ unequal.since told.2.1, ¬ e.IsAction) ∧
    (untold = (.failed (.client "p1" (.failed "battle" "no")), untold.2.1, muddled) ∧
      (∃ e ∈ unfit.since untold.2.1, e.IsRefusal) ∧ ∀ e ∈ unfit.since untold.2.1, ¬ e.IsAction) ∧
    sent = (.failed (.client "p2" (.failed "goto" "no")), sent.2.1, marching) ∧
      (∃ e ∈ unfit.since sent.2.1, e.IsAction) ∧
      ∃ c, Action.Demands pair [] (.goTo (.position (.number 1) (.number 2) (.number 3))) c ∧
        ∀ e ∈ unfit.since sent.2.1, e.call? = some ⟨.nothing, c⟩ := by
  intro told untold sent
  have htold : told = (.failed (.typeMismatch "negation" "number or xyz" .bool), told.2.1,
      muddled) := rfl
  have huntold : untold = (.failed (.client "p1" (.failed "battle" "no")), untold.2.1,
      muddled) := rfl
  have hsent : sent = (.failed (.client "p2" (.failed "goto" "no")), sent.2.1, marching) := rfl
  have hrefusal : ∃ e ∈ unfit.since untold.2.1, e.IsRefusal := ⟨_, .tail _ (.head _), rfl, nofun⟩
  have haction : ∃ e ∈ unfit.since sent.2.1, e.IsAction := ⟨_, .head _, rfl⟩
  refine ⟨⟨htold, rfl, ?_⟩, ⟨huntold, hrefusal, ?_⟩, hsent, haction, ?_⟩
  · exact (operand_faults_act_on_nobody pair 100 ⟨none, none⟩ 30 unequal rfl rfl htold).1
      (.inl trivial)
  · exact (operand_faults_act_on_nobody pair 100 ⟨none, none⟩ 30 unfit rfl rfl huntold).1
      (.inr hrefusal)
  · obtain ⟨c, hdemands, -, hall⟩ :=
      (operand_faults_act_on_nobody pair 100 ⟨none, none⟩ 30 unfit rfl rfl hsent).2 haction
    exact ⟨c, hdemands, hall⟩

end Machine

end BotScript
