import BotScript.Proofs.Activity.Tidy
import BotScript.Proofs.Machine.Atomicity
import BotScript.Proofs.Machine.Operands

/-!
# Instructions are tidy

Whatever an instruction does keeps the discipline of tidy activities. This is in doubt only for
actions towards a position: the expression is evaluated again for each client, while the actions of
the clients before are under way. But an expression that asks a client for anything yields a truth
value, never a position, so such an action fails before it starts anything.

## Main definitions

* `Instruction.clients`: the clients that an instruction selects.
* `Activity.Settled`: an activity is tidy and leaves no action under way.
* `Activity.Prompt`: an activity has its result at once, or one that satisfies a condition.

## Main results

* `Expr.eval_prompt`: an expression that asks a client yields a truth value.
* `Machine.plan_tidy`: what an instruction does is tidy.
-/

namespace BotScript

open Activity

variable {n : Nat} {α β : Type} {every : Nat} {selected : List (Fin n)} {κ : AnswerKind}

namespace Activity

/-- An activity is tidy, and begins and ends with no action under way. -/
abbrev Settled (every : Nat) (selected : List (Fin n)) (a : Activity n α) : Prop :=
  a.Tidy every selected (fun _ started => started = []) []

theorem Settled.bind {Q : β → List (Fin n) → Prop} {a : Activity n α} {f : α → Activity n β}
    (ha : a.Settled every selected) (hf : ∀ x, (f x).Tidy every selected Q []) :
    (a.bind f).Tidy every selected Q [] := by
  refine Tidy.bind ha fun x started hstarted => ?_
  rw [hstarted]
  exact hf x

theorem settled_lift (e : Except Fault α) : (lift e : Activity n α).Settled every selected :=
  tidy_lift fun _ _ => rfl

theorem settled_query (who : Fin n) (c : Call κ) : (query who c).Settled every selected :=
  ⟨rfl, fun _ => rfl⟩

/-- An activity has its result, or its fault, at once, or any result of it satisfies a condition. -/
def Prompt (S : α → Prop) (a : Activity n α) : Prop :=
  (∃ result, a = lift result) ∨ a.Ensures (fun _ => True) S

theorem prompt_lift {S : α → Prop} (e : Except Fault α) : (lift e : Activity n α).Prompt S :=
  .inl ⟨e, rfl⟩

/-- What follows a prompt activity is prompt, if it treats results that took time as it may. -/
theorem Prompt.bind {S : α → Prop} {R : β → Prop} {a : Activity n α} {f : α → Activity n β}
    (ha : a.Prompt S) (hf : ∀ x, (f x).Prompt R)
    (hslow : ∀ x, S x → (f x).Ensures (fun _ => True) R) : (a.bind f).Prompt R := by
  rcases ha with ⟨result, rfl⟩ | hensures
  · cases result with
    | ok x => exact hf x
    | error e => exact prompt_lift (.error e)
  · exact .inr (hensures.bind hslow)

end Activity

/-! ### Expressions -/

theorem Probe.of_settled (p : Probe) (who : Fin n) : (p.of who).Settled every selected := by
  cases p with
  | ask c => exact settled_query who c
  | inZone zone => exact (settled_query who .zone).bind fun _ => rfl

theorem Probe.ofAll_settled (p : Probe) (clients : List (Fin n)) :
    (p.ofAll clients).Settled every selected := by
  induction clients with
  | nil => rfl
  | cons who rest ih =>
    refine (p.of_settled who).bind fun yes => ?_
    cases yes with
    | true => exact ih
    | false => rfl

theorem Predicate.eval_settled (crew : Crew n) (who : Selector) (p : Predicate) :
    (p.eval crew who).Settled every selected := by
  cases p with
  | windowVisible path => exact Probe.ofAll_settled _ _
  | inZone path => exact Probe.ofAll_settled _ _
  | inBattle => exact Probe.ofAll_settled _ _
  | inDialog => exact Probe.ofAll_settled _ _
  | sameZone a b =>
    refine (settled_lift _).bind fun first => (settled_lift _).bind fun second => ?_
    exact (settled_query first .zone).bind fun zone => Probe.of_settled _ second

/-- A truth value: neither a number nor a position, and without an opposite. -/
def Value.IsTruth (v : Value) : Prop := ∃ b, v = .bool b

namespace Expr

variable (crew : Crew n) (vars : Variables)

theorem eval_settled (e : Expr) : (e.eval crew vars).Settled every selected := by
  induction e with
  | number x => rfl
  | string s => rfl
  | key k => rfl
  | position x y z ihx ihy ihz =>
    refine ihx.bind fun vx => (settled_lift _).bind fun _ => ?_
    refine ihy.bind fun vy => (settled_lift _).bind fun _ => ?_
    exact ihz.bind fun vz => (settled_lift _).bind fun _ => rfl
  | unary op e ih =>
    cases op with
    | negate => exact ih.bind fun v => settled_lift _
    | not => exact ih.bind fun v => (settled_lift _).bind fun _ => rfl
  | ask who p => exact (p.eval_settled crew who).bind fun _ => rfl
  | var name =>
    rw [eval]
    split
    · rfl
    · trivial

/-- A number that is part of a position comes at once, or the position never does. -/
private theorem asNumber_prompt {S : Value → Prop} {f : Float → Activity n Value}
    (hf : ∀ x, (f x).Prompt S) {a : Activity n Value} (ha : a.Prompt Value.IsTruth) :
    (a.bind fun v => (lift (v.asNumber "xyz")).bind f).Prompt S := by
  refine ha.bind (fun v => ?_) ?_
  · cases v.asNumber "xyz" with
    | ok x => exact hf x
    | error e => exact prompt_lift (.error e)
  · rintro _ ⟨b, rfl⟩
    trivial

/-- An expression that asks a client yields a truth value. -/
theorem eval_prompt (e : Expr) : (e.eval crew vars).Prompt Value.IsTruth := by
  induction e with
  | number x => exact prompt_lift (.ok _)
  | string s => exact prompt_lift (.ok _)
  | key k => exact prompt_lift (.ok _)
  | position x y z ihx ihy ihz =>
    refine asNumber_prompt (fun x => ?_) ihx
    refine asNumber_prompt (fun y => ?_) ihy
    exact asNumber_prompt (fun z => prompt_lift (.ok _)) ihz
  | unary op e ih =>
    cases op with
    | negate =>
      refine ih.bind (fun v => prompt_lift _) ?_
      rintro _ ⟨b, rfl⟩
      trivial
    | not =>
      refine ih.bind (fun v => ?_) fun v _ => ?_
      · cases v.asCondition with
        | ok b => exact prompt_lift (.ok _)
        | error e => exact prompt_lift (.error e)
      · cases v.asCondition with
        | ok b => exact ⟨_, rfl⟩
        | error e => trivial
  | ask who p =>
    have hresults : (p.eval crew who).Ensures (fun _ => True) fun _ => True :=
      (p.eval_mere crew who).mono (fun _ _ => trivial) fun _ _ => trivial
    exact .inr (hresults.bind fun b _ => ⟨b, rfl⟩)
  | var name =>
    rw [eval]
    split
    · exact prompt_lift (.ok _)
    · exact prompt_lift (.error _)

variable (e : Expr)

theorem evalCondition_settled : (e.evalCondition crew vars).Settled every selected :=
  (e.eval_settled crew vars).bind fun _ => settled_lift _

theorem evalNumber_settled (context : String) :
    (e.evalNumber crew vars context).Settled every selected :=
  (e.eval_settled crew vars).bind fun _ => settled_lift _

theorem evalPosition_settled (context : String) :
    (e.evalPosition crew vars context).Settled every selected :=
  (e.eval_settled crew vars).bind fun _ => settled_lift _

theorem evalKey_settled : (e.evalKey crew vars).Settled every selected :=
  (e.eval_settled crew vars).bind fun _ => settled_lift _

/-- A position comes at once, or never. -/
theorem evalPosition_prompt (context : String) :
    (e.evalPosition crew vars context).Prompt fun _ => False := by
  refine (e.eval_prompt crew vars).bind (fun v => prompt_lift _) ?_
  rintro _ ⟨b, rfl⟩
  trivial

end Expr

/-! ### Actions -/

/-- Clients are selected in order. -/
theorem Selector.pick_pairwise (who : Selector) (n : Nat) : (who.pick n).Pairwise (· < ·) :=
  (List.pairwise_lt_finRange n).filter _

theorem Selector.pick_nodup (who : Selector) (n : Nat) : (who.pick n).Nodup :=
  (who.pick_pairwise n).imp fun hlt => Fin.ne_of_lt hlt

/-- Actions that are started at once, on clients in order, some of which were visited before. -/
private theorem tidy_starts_append {started clients : List (Fin n)}
    {visit : Fin n → Activity n Unit}
    (hvisit : ∀ who, (∃ c, visit who = start who c) ∨ ∃ f, visit who = fail f)
    (horder : (started ++ clients).Pairwise (· < ·)) :
    (forEach visit clients).Tidy every selected
      (fun _ all => all = started ++ clients) started := by
  induction clients generalizing started with
  | nil => exact (List.append_nil started).symm
  | cons who rest ih =>
    rw [forEach]
    rcases hvisit who with ⟨c, hc⟩ | ⟨f, hf⟩
    · rw [hc, List.append_cons]
      rw [List.append_cons] at horder
      refine ⟨fun i hi => ?_, ih horder⟩
      exact (List.pairwise_append.mp (List.pairwise_append.mp horder).1).2.2 i hi who (by simp)
    · rw [hf]
      trivial

/-- Actions that are started at once, on the selected clients. -/
theorem tidy_starts {visit : Fin n → Activity n Unit}
    (hvisit : ∀ who, (∃ c, visit who = start who c) ∨ ∃ f, visit who = fail f)
    (hselected : selected.Pairwise (· < ·)) :
    (forEach visit selected).Tidy every selected (fun _ started => started = selected) [] := by
  have hnone : ([] ++ selected).Pairwise (· < ·) := hselected
  exact tidy_starts_append hvisit hnone

/-- Waiting for whatever was started leaves nothing under way. -/
theorem settled_joined {a : Activity n Unit}
    (ha : a.Tidy every selected (fun _ started => started = selected) []) :
    (a.bind fun _ => joined).Settled every selected :=
  ha.bind fun _ _ hstarted => ⟨hstarted, rfl⟩

theorem together_settled {chains : List (Fin n × Chain κ)}
    (hclients : chains.map Prod.fst = selected) (h : ∀ c ∈ chains, c.2.Regular every) :
    (together chains).Settled every selected :=
  ⟨rfl, hclients, h, fun _ => rfl⟩

theorem eachRun_settled {chain : Chain κ} (h : chain.Regular every) :
    (eachRun chain selected).Settled every selected := by
  refine together_settled ?_ ?_
  · simp [List.map_map, Function.comp_def]
  · intro c hc
    obtain ⟨who, -, rfl⟩ := List.mem_map.mp hc
    exact h

theorem allDo_settled (hselected : selected.Pairwise (· < ·)) (c : Call .nothing) :
    (allDo selected c).Settled every selected :=
  settled_joined (tidy_starts (fun _ => .inl ⟨c, rfl⟩) hselected)

theorem allMove_settled (hselected : selected.Pairwise (· < ·)) (crew : Crew n) (vars : Variables)
    (context : String) (target : Expr) (c : Position → Call .nothing) :
    (allMove crew vars context target c selected).Settled every selected := by
  refine settled_joined ?_
  rcases target.evalPosition_prompt crew vars context with ⟨result, hresult⟩ | hnever
  · refine tidy_starts (fun who => ?_) hselected
    rw [hresult]
    cases result with
    | ok p => exact .inl ⟨c p, rfl⟩
    | error f => exact .inr ⟨f, rfl⟩
  · -- The first client is where it ends, before anything is started.
    cases selected with
    | nil => rfl
    | cons who rest =>
      have hfirst : (target.evalPosition crew vars context).Tidy every (who :: rest)
          (fun _ _ => False) [] :=
        (target.evalPosition_settled crew vars context).mono hnever fun _ _ _ hfalse => hfalse
      have hvisit := hfirst.bind fun p _ hfalse =>
        (hfalse.elim : (start who (c p)).Tidy every (who :: rest) (fun _ _ => False) _)
      exact hvisit.bind fun _ _ hfalse => hfalse.elim

theorem Destination.perform_settled (hselected : selected.Pairwise (· < ·)) (crew : Crew n)
    (vars : Variables) (goal : Destination) :
    (goal.perform crew vars selected).Settled every selected := by
  cases goal with
  | position target => exact allMove_settled hselected ..
  | entity name => exact allDo_settled hselected _
  | entityLike name => exact allDo_settled hselected _
  | mob => exact allDo_settled hselected _
  | quest =>
    have hchain : questChain.Regular every := fun _ _ => trivial
    exact (eachRun_settled hchain).bind fun _ => rfl
  | friendIcon =>
    have hchain : (friendChain topFriend).Regular every := fun _ => trivial
    exact (eachRun_settled hchain).bind fun _ => rfl
  | friendName name =>
    have hchain : (friendChain (.name name)).Regular every := fun _ => trivial
    exact (eachRun_settled hchain).bind fun _ => rfl

theorem waitChain_regular (c : Call .truth) (completion : Bool) :
    (waitChain c completion every).Regular every := by
  cases completion with
  | true => exact ⟨rfl, rfl, trivial⟩
  | false => exact ⟨rfl, trivial⟩

/-- The zones of some clients come with the clients they were asked of. -/
theorem zones_tidy (clients : List (Fin n)) :
    (zones clients).Tidy every selected
      (fun starts started => started = [] ∧ starts.map Prod.fst = clients) [] := by
  induction clients with
  | nil => exact ⟨rfl, rfl⟩
  | cons who rest ih =>
    refine (settled_query who .zone).bind fun zone => ih.bind ?_
    rintro starts _ ⟨rfl, hstarts⟩
    exact ⟨rfl, by simp [hstarts]⟩

theorem zoneChange_settled (completion : Bool) :
    (zoneChange every completion selected).Settled every selected := by
  refine (zones_tidy selected).bind ?_
  rintro starts _ ⟨rfl, hstarts⟩
  refine (together_settled ?_ ?_).bind fun _ => ?_
  · simpa [List.map_map, Function.comp_def] using hstarts
  · intro c hc
    obtain ⟨start, -, rfl⟩ := List.mem_map.mp hc
    exact ⟨rfl, trivial⟩
  · cases completion with
    | true =>
      have hchain : (loadedChain every).Regular every := ⟨rfl, trivial⟩
      exact (eachRun_settled hchain).bind fun _ => rfl
    | false => rfl

theorem Wait.perform_settled (wait : Wait) :
    (wait.perform every selected).Settled every selected := by
  have heach : ∀ c, (Wait.perform.each every selected wait c).Settled every selected := fun c =>
    (eachRun_settled (waitChain_regular c wait.completion)).bind fun _ => rfl
  unfold Wait.perform
  split
  · exact heach _
  · exact heach _
  · exact heach _
  · exact heach _
  · exact zoneChange_settled wait.completion

theorem Action.perform_settled (hselected : selected.Pairwise (· < ·)) (crew : Crew n)
    (vars : Variables) (a : Action) :
    (a.perform crew every vars selected).Settled every selected := by
  cases a with
  | sendKey key seconds =>
    refine (key.evalKey_settled crew vars).bind fun k => ?_
    cases seconds with
    | some e =>
      refine (e.evalNumber_settled crew vars _).bind fun s => ?_
      exact (settled_lift _).bind fun _ => allDo_settled hselected _
    | none =>
      exact (settled_lift (secondsOperand "sendkey" defaultHold)).bind
        fun _ => allDo_settled hselected _
  | click x y =>
    refine (x.evalNumber_settled crew vars _).bind fun vx => (settled_lift _).bind fun _ => ?_
    refine (y.evalNumber_settled crew vars _).bind fun vy => (settled_lift _).bind fun _ => ?_
    exact allDo_settled hselected _
  | teleport goal => exact goal.perform_settled hselected crew vars
  | goTo target => exact allMove_settled hselected ..
  | usePotion => exact allDo_settled hselected _
  | buyPotions => exact allDo_settled hselected _
  | relog => exact allDo_settled hselected _
  | toZone path => exact allDo_settled hselected _
  | waitFor wait => exact wait.perform_settled

theorem windowChain_regular (path : List String) : (windowChain path).Regular every := by
  intro text
  cases text with
  | some text => trivial
  | none => exact ⟨_, rfl⟩

theorem windowLines_settled (crew : Crew n) (path : List String) :
    (windowLines crew path selected).Settled every selected :=
  (eachRun_settled (windowChain_regular path)).bind fun _ => rfl

/-! ### Instructions -/

namespace Instruction

/-- The clients that an instruction selects, out of `n`. -/
def clients (n : Nat) : Instruction → List (Fin n)
  | act who _ | loadPlaystyle who _ | logWindow who _ => who.pick n
  | _ => []

theorem clients_pairwise (i : Instruction) (n : Nat) : (i.clients n).Pairwise (· < ·) := by
  unfold clients
  split
  · exact Selector.pick_pairwise _ n
  · exact Selector.pick_pairwise _ n
  · exact Selector.pick_pairwise _ n
  · exact .nil

end Instruction

namespace Machine

/-- What an instruction does is tidy. -/
theorem plan_tidy (crew : Crew n) (every : Nat) (m : Machine) (i : Instruction) :
    (m.plan crew every i).Tidy every (i.clients n) (fun _ _ => True) [] := by
  have hpick := fun who : Selector => who.pick_pairwise n
  cases i with
  | kill => trivial
  | sleep duration =>
    have hrests : (duration.rest crew m.vars).Settled every
        (Instruction.clients n (.sleep duration)) :=
      (duration.evalNumber_settled crew m.vars _).bind fun _ => (settled_lift _).bind fun _ => rfl
    exact hrests.bind fun _ => trivial
  | logLiteral tokens => trivial
  | logWindow who path =>
    rw [plan_logWindow]
    exact (windowLines_settled crew path).bind fun _ => trivial
  | jump offset =>
    rw [plan_jump]
    split
    · exact (Expr.evalCondition_settled crew m.vars _).bind fun _ => tidy_lift fun _ _ => trivial
    · exact tidy_lift fun _ _ => trivial
  | jumpIf test offset =>
    rw [plan_jumpIf]
    exact (test.evalCondition_settled crew m.vars).bind fun _ => tidy_lift fun _ _ => trivial
  | jumpIfNot test offset =>
    rw [plan_jumpIfNot]
    exact (test.evalCondition_settled crew m.vars).bind fun _ => tidy_lift fun _ _ => trivial
  | enterUntil test offset =>
    rw [plan_enterUntil]
    exact tidy_lift fun _ _ => trivial
  | label name => trivial
  | nop => trivial
  | call name =>
    rw [plan_call]
    exact tidy_lift fun _ _ => trivial
  | ret =>
    rw [plan_ret]
    exact tidy_lift fun _ _ => trivial
  | act who a => exact (a.perform_settled (hpick who) crew m.vars).bind fun _ => trivial
  | loadPlaystyle who text => exact (allDo_settled (hpick who) _).bind fun _ => trivial
  | assign name e => exact (e.eval_settled crew m.vars).bind fun _ => trivial
  | decrement name =>
    rw [plan_decrement]
    exact tidy_lift fun _ _ => trivial

end Machine

end BotScript
