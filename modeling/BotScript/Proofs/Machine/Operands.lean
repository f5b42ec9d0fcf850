import BotScript.Machine.Performance
import BotScript.Proofs.Activity.Ensures

/-!
# Faults of operands and actions

An operand is faulty because it is of the wrong type or out of range, a variable has no value, or
there is no client of some number. Carrying out an action can fail in more ways, but never for a
reason of control flow: a missing label, a return without a call, or a jump out of the program.

## Main definitions

* `Fault.IsOperand`: the faults of operands.
* `Fault.IsControl`: the faults of control flow.
* `Activity.Mere`: of itself, an activity fails only as operands do.
* `Activity.Orderly`: an activity never fails with a fault of control flow.

## Main results

* `Expr.eval_mere`, `Action.perform_mere`: expressions and actions have only faults of
  operands of their own.
* `windowLines_orderly`: logging a window has no fault of control flow.
-/

namespace BotScript

open Activity

/-- A fault of an operand: it is of the wrong type or out of range, a variable has no value, or
there is no client of some number. -/
def Fault.IsOperand : Fault → Prop
  | typeMismatch .. | invalidOperand .. | unknownVariable _ | noClient .. => True
  | _ => False

/-- A fault of control flow. -/
def Fault.IsControl : Fault → Prop
  | labelNotFound _ | noCall | jumpOutOfRange .. => True
  | _ => False

theorem Fault.IsOperand.not_isControl {f : Fault} (h : f.IsOperand) : ¬ f.IsControl := by
  cases f with
  | labelNotFound | noCall | jumpOutOfRange => exact h.elim
  | _ => exact id

variable {n : Nat} {α : Type}

/-- Of itself, an activity fails only as operands do; its calls may fail as well. -/
abbrev Activity.Mere (a : Activity n α) : Prop := a.Ensures Fault.IsOperand fun _ => True

/-- An activity never fails for a reason of control flow. -/
abbrev Activity.Orderly (a : Activity n α) :
    Prop := a.Ensures (fun f => ¬ f.IsControl) fun _ => True

theorem Activity.Ensures.orderly {a : Activity n α} (h : a.Mere) : a.Orderly :=
  h.mono (fun _ hf => hf.not_isControl) fun _ hx => hx

/-- What may be faulty is so only as operands are. -/
abbrev MereOperand (e : Except Fault α) : Prop := Meets Fault.IsOperand (fun _ => True) e

/-! ### Operands -/

namespace Value

theorem asCondition_mere (v : Value) : MereOperand v.asCondition := by
  unfold asCondition
  split <;> trivial

theorem asNumber_mere (context : String) (v : Value) : MereOperand (v.asNumber context) := by
  unfold asNumber
  split <;> trivial

theorem asPosition_mere (context : String) (v : Value) : MereOperand (v.asPosition context) := by
  unfold asPosition
  split <;> trivial

theorem asKey_mere (v : Value) : MereOperand v.asKey := by
  unfold asKey
  split <;> trivial

theorem negate_mere (v : Value) : MereOperand v.negate := by
  unfold negate
  split <;> trivial

end Value

theorem Crew.player_mere (crew : Crew n) (num : Nat) : MereOperand (crew.player num) := by
  unfold Crew.player
  split <;> trivial

theorem secondsOperand_mere (instruction : String) (seconds : Float) :
    MereOperand (secondsOperand instruction seconds) := by
  unfold secondsOperand
  split <;> trivial

theorem coordinate_mere (x : Float) : MereOperand (coordinate x) := by
  unfold coordinate
  split
  · split <;> trivial
  · trivial

/-! ### Expressions -/

/-- Questions have no faults of their own. -/
theorem query_mere (who : Fin n) {κ : AnswerKind} (c : Call κ) : (query who c).Mere :=
  fun _ => trivial

theorem Probe.of_mere (p : Probe) (who : Fin n) : (p.of who).Mere := by
  cases p with
  | ask c => exact query_mere who c
  | inZone zone => exact (query_mere who .zone).andThen fun _ => trivial

theorem Probe.ofAll_mere (p : Probe) (clients : List (Fin n)) : (p.ofAll clients).Mere := by
  induction clients with
  | nil => trivial
  | cons who rest ih =>
    refine (p.of_mere who).andThen fun yes => ?_
    cases yes with
    | true => exact ih
    | false => trivial

theorem Predicate.eval_mere (crew : Crew n) (who : Selector) (p : Predicate) :
    (p.eval crew who).Mere := by
  cases p with
  | windowVisible path => exact Probe.ofAll_mere _ _
  | inZone path => exact Probe.ofAll_mere _ _
  | inBattle => exact Probe.ofAll_mere _ _
  | inDialog => exact Probe.ofAll_mere _ _
  | sameZone a b =>
    refine (ensures_lift (crew.player_mere _)).andThen fun first => ?_
    refine (ensures_lift (crew.player_mere _)).andThen fun second => ?_
    exact (query_mere first .zone).andThen fun zone => Probe.of_mere _ second

namespace Expr

theorem eval_mere (crew : Crew n) (vars : Variables) (e : Expr) : (e.eval crew vars).Mere := by
  induction e with
  | number x => trivial
  | string s => trivial
  | key k => trivial
  | position x y z ihx ihy ihz =>
    refine ihx.andThen fun vx => (ensures_lift (vx.asNumber_mere _)).andThen fun _ => ?_
    refine ihy.andThen fun vy => (ensures_lift (vy.asNumber_mere _)).andThen fun _ => ?_
    refine ihz.andThen fun vz => (ensures_lift (vz.asNumber_mere _)).andThen fun _ => ?_
    trivial
  | unary op e ih =>
    cases op with
    | negate => exact ih.andThen fun v => ensures_lift v.negate_mere
    | not => exact ih.andThen fun v => (ensures_lift v.asCondition_mere).andThen fun _ => trivial
  | ask who p => exact (p.eval_mere crew who).andThen fun _ => trivial
  | var name =>
    rw [eval]
    split <;> trivial

variable (crew : Crew n) (vars : Variables) (e : Expr)

theorem evalCondition_mere : (e.evalCondition crew vars).Mere :=
  (e.eval_mere crew vars).andThen fun v => ensures_lift v.asCondition_mere

theorem evalNumber_mere (context : String) : (e.evalNumber crew vars context).Mere :=
  (e.eval_mere crew vars).andThen fun v => ensures_lift (v.asNumber_mere context)

theorem evalPosition_mere (context : String) : (e.evalPosition crew vars context).Mere :=
  (e.eval_mere crew vars).andThen fun v => ensures_lift (v.asPosition_mere context)

theorem evalKey_mere : (e.evalKey crew vars).Mere :=
  (e.eval_mere crew vars).andThen fun v => ensures_lift v.asKey_mere

theorem eval_orderly : (e.eval crew vars).Orderly := (e.eval_mere crew vars).orderly

theorem evalCondition_orderly :
    (e.evalCondition crew vars).Orderly := (e.evalCondition_mere crew vars).orderly

end Expr

/-! ### Actions -/

/-- Of itself, a chain fails only as operands do. -/
abbrev Chain.Mere {κ : AnswerKind} (c : Chain κ) : Prop := c.Ensures Fault.IsOperand

theorem start_mere (who : Fin n) (c : Call .nothing) : (start who c).Mere := trivial

theorem joined_mere : (joined : Activity n Unit).Mere := trivial

theorem allDo_mere (clients : List (Fin n)) (c : Call .nothing) : (allDo clients c).Mere :=
  (ensures_forEach fun who _ => start_mere who c).andThen fun _ => joined_mere

theorem allMove_mere (crew : Crew n) (vars : Variables) (context : String) (target : Expr)
    (c : Position → Call .nothing) (clients : List (Fin n)) :
    (allMove crew vars context target c clients).Mere := by
  refine (ensures_forEach fun who _ => ?_).andThen fun _ => joined_mere
  exact (target.evalPosition_mere crew vars context).andThen fun p => start_mere who (c p)

theorem together_ensures {P : Fault → Prop} {κ : AnswerKind} {chains : List (Fin n × Chain κ)}
    (h : ∀ c ∈ chains, c.2.Ensures P) : (together chains).Ensures P fun _ => True :=
  ⟨h, fun _ => trivial⟩

theorem eachRun_ensures {P : Fault → Prop} {κ : AnswerKind} {chain : Chain κ} (h : chain.Ensures P)
    (clients : List (Fin n)) : (eachRun chain clients).Ensures P fun _ => True := by
  refine together_ensures fun c hc => ?_
  obtain ⟨who, -, rfl⟩ := List.mem_map.mp hc
  exact h

theorem questChain_mere : questChain.Mere := fun _ _ => trivial

theorem friendChain_mere (f : Friend) : (friendChain f).Mere := fun _ => trivial

theorem Destination.perform_mere (crew : Crew n) (vars : Variables) (clients : List (Fin n))
    (goal : Destination) : (goal.perform crew vars clients).Mere := by
  cases goal with
  | position target => exact allMove_mere ..
  | entity name => exact allDo_mere ..
  | entityLike name => exact allDo_mere ..
  | mob => exact allDo_mere ..
  | quest => exact (eachRun_ensures questChain_mere clients).andThen fun _ => trivial
  | friendIcon => exact (eachRun_ensures (friendChain_mere _) clients).andThen fun _ => trivial
  | friendName name => exact (eachRun_ensures (friendChain_mere _) clients).andThen fun _ => trivial

theorem waitChain_mere (c : Call .truth) (completion : Bool) (every : Nat) :
    (waitChain c completion every).Mere := by
  cases completion <;> trivial

theorem loadedChain_mere (every : Nat) : (loadedChain every).Mere := trivial

theorem zones_mere (clients : List (Fin n)) : (zones clients).Mere := by
  induction clients with
  | nil => trivial
  | cons who rest ih =>
    exact (query_mere who .zone).andThen fun _ => ih.andThen fun _ => trivial

theorem zoneChange_mere (every : Nat) (completion : Bool) (clients : List (Fin n)) :
    (zoneChange every completion clients).Mere := by
  refine (zones_mere clients).andThen fun starts => ?_
  refine (together_ensures ?_).andThen fun _ => ?_
  · intro c hc
    obtain ⟨start, -, rfl⟩ := List.mem_map.mp hc
    trivial
  · cases completion with
    | true => exact (eachRun_ensures (loadedChain_mere every) clients).andThen fun _ => trivial
    | false => trivial

theorem Wait.perform_mere (every : Nat) (clients : List (Fin n)) (wait : Wait) :
    (wait.perform every clients).Mere := by
  have heach : ∀ c, (Wait.perform.each every clients wait c).Mere := fun c =>
    (eachRun_ensures (waitChain_mere c wait.completion every) clients).andThen fun _ => trivial
  unfold Wait.perform
  split
  · exact heach _
  · exact heach _
  · exact heach _
  · exact heach _
  · exact zoneChange_mere every wait.completion clients

theorem Action.perform_mere (crew : Crew n) (every : Nat) (vars : Variables)
    (clients : List (Fin n)) (a : Action) : (a.perform crew every vars clients).Mere := by
  cases a with
  | sendKey key seconds =>
    refine (key.evalKey_mere crew vars).andThen fun k => ?_
    cases seconds with
    | some e =>
      refine (e.evalNumber_mere crew vars _).andThen fun s => ?_
      exact (ensures_lift (secondsOperand_mere _ s)).andThen fun _ => allDo_mere ..
    | none =>
      exact (ensures_lift (secondsOperand_mere "sendkey" defaultHold)).andThen
        fun _ => allDo_mere ..
  | click x y =>
    refine (x.evalNumber_mere crew vars _).andThen fun vx => ?_
    refine (ensures_lift (coordinate_mere vx)).andThen fun _ => ?_
    refine (y.evalNumber_mere crew vars _).andThen fun vy => ?_
    exact (ensures_lift (coordinate_mere vy)).andThen fun _ => allDo_mere ..
  | teleport goal => exact goal.perform_mere crew vars clients
  | goTo target => exact allMove_mere ..
  | usePotion => exact allDo_mere ..
  | buyPotions => exact allDo_mere ..
  | relog => exact allDo_mere ..
  | toZone path => exact allDo_mere ..
  | waitFor wait => exact wait.perform_mere every clients

theorem Action.perform_orderly (crew : Crew n) (every : Nat) (vars : Variables)
    (clients : List (Fin n)) (a : Action) :
    (a.perform crew every vars clients).Orderly := (a.perform_mere ..).orderly

theorem windowLines_orderly (crew : Crew n) (path : List String) (clients : List (Fin n)) :
    (windowLines crew path clients).Orderly := by
  refine (eachRun_ensures ?_ clients).andThen fun _ => trivial
  intro text
  cases text with
  | some text => trivial
  | none => exact id

end BotScript
