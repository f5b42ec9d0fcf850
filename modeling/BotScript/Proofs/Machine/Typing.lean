import BotScript.Proofs.Activity.Calls
import BotScript.Proofs.Machine.FanOut

/-!
# Types of expressions

The type of an expression depends on the values of the variables alone. An expression that has a
type comes to a value of this type, or fails for a reason that types know nothing of: a call fails,
or there is no client of some number. One that has no type never comes to a value. And unless the
type is that of truth values, the value is there at once, whoever the clients are.

## Main definitions

* `Expr.HasType`: an expression has a type.

## Main results

* `Expr.eval_asks`: evaluating an expression takes questions and nothing else.
* `Expr.eval_hasType`: what an expression comes to is of a type that the expression has.
* `Expr.HasType.eval_ensures`: an expression that has a type comes to values of this type.
* `Expr.HasType.eval_eq_done`: an expression of another type than truth values has its
  value at once.
* `Expr.eval_typed`: types tell what comes of evaluating an expression.
-/

namespace BotScript

open Activity World Cast

variable {σ : Type} {n : Nat} {vars : Variables} {e : Expr} {T : ValueType} {v : Value}

/-- An expression has a type, given the values of the variables. -/
inductive Expr.HasType (vars : Variables) : Expr → ValueType → Prop
  | number (x : Float) : HasType vars (.number x) .number
  | string (s : String) : HasType vars (.string s) .string
  | key (k : String) : HasType vars (.key k) .key
  | var {name : String} {v : Value} (h : vars.get? name = some v) : HasType vars (.var name) v.type
  | position {x y z : Expr} (hx : HasType vars x .number) (hy : HasType vars y .number)
      (hz : HasType vars z .number) : HasType vars (.position x y z) .position
  | negate {e : Expr} {T : ValueType} (h : HasType vars e T) (hT : T = .number ∨ T = .position) :
      HasType vars (.unary .negate e) T
  | not {e : Expr} {T : ValueType} (h : HasType vars e T) (hT : T = .bool ∨ T = .number) :
      HasType vars (.unary .not e) .bool
  | ask (who : Selector) (p : Predicate) : HasType vars (.ask who p) .bool

/-! ### Values and their types -/

namespace Value

theorem exists_asNumber (context : String) (h : v.type = .number) :
    ∃ x, v.asNumber context = .ok x := by
  cases v with
  | number x => exact ⟨x, rfl⟩
  | string | key | position | bool => cases h

theorem exists_negate (h : v.type = .number ∨ v.type = .position) :
    ∃ v', v.negate = .ok v' ∧ v'.type = v.type := by
  cases v with
  | number x => exact ⟨.number (-x), rfl, rfl⟩
  | position p => exact ⟨.position p.neg, rfl, rfl⟩
  | string | key | bool => rcases h with h | h <;> cases h

theorem exists_asCondition (h : v.type = .bool ∨ v.type = .number) :
    ∃ b, v.asCondition = .ok b := by
  cases v with
  | number x => exact ⟨x != 0, rfl⟩
  | bool b => exact ⟨b, rfl⟩
  | string | key | position => rcases h with h | h <;> cases h

theorem asNumber_type (context : String) (v : Value) :
    Meets (fun _ => True) (fun _ => v.type = .number) (v.asNumber context) := by
  cases v with
  | number x => rfl
  | string | key | position | bool => trivial

theorem negate_type (v : Value) :
    Meets (fun _ => True) (fun v' => (v.type = .number ∨ v.type = .position) ∧ v'.type = v.type)
      v.negate := by
  cases v with
  | number x => exact ⟨.inl rfl, rfl⟩
  | position p => exact ⟨.inr rfl, rfl⟩
  | string | key | bool => trivial

theorem asCondition_type (v : Value) :
    Meets (fun _ => True) (fun _ => v.type = .bool ∨ v.type = .number) v.asCondition := by
  cases v with
  | number x => exact .inr rfl
  | bool b => exact .inl rfl
  | string | key | position => trivial

end Value

/-! ### Asking clients -/

namespace Probe

theorem of_asks (p : Probe) (who : Fin n) : (p.of who).Asks := by
  cases p with
  | ask c => exact ⟨nofun, fun _ => trivial⟩
  | inZone zone => exact ⟨nofun, fun _ => trivial⟩

theorem ofAll_asks (p : Probe) (clients : List (Fin n)) : (p.ofAll clients).Asks := by
  induction clients with
  | nil => trivial
  | cons who rest ih =>
    refine (p.of_asks who).andThen fun yes => ?_
    cases yes with
    | true => exact ih
    | false => trivial

/-- Asking some clients has no faults of its own. -/
theorem ofAll_ensures {P : Fault → Prop} (p : Probe) (clients : List (Fin n)) :
    (p.ofAll clients).Ensures P fun _ => True := by
  induction clients with
  | nil => trivial
  | cons who rest ih =>
    have hone : (p.of who).Ensures P fun _ => True := by
      cases p with
      | ask c => exact fun _ => trivial
      | inZone zone => exact fun _ => trivial
    refine hone.andThen fun yes => ?_
    cases yes with
    | true => exact ih
    | false => trivial

end Probe

namespace Predicate

theorem eval_asks (crew : Crew n) (who : Selector) (p : Predicate) : (p.eval crew who).Asks := by
  cases p with
  | windowVisible path => exact Probe.ofAll_asks _ _
  | inZone path => exact Probe.ofAll_asks _ _
  | inBattle => exact Probe.ofAll_asks _ _
  | inDialog => exact Probe.ofAll_asks _ _
  | sameZone a b =>
    refine (asks_lift _).andThen fun first => (asks_lift _).andThen fun second => ?_
    exact ⟨nofun, fun zone => (Probe.inZone zone).of_asks second⟩

/-- The only fault of a predicate is a client that is not there. -/
theorem eval_ensures (crew : Crew n) (who : Selector) (p : Predicate) :
    (p.eval crew who).Ensures (fun f => ∃ num, f = .noClient num n) fun _ => True := by
  have hplayer : ∀ num, (lift (crew.player num) : Activity n (Fin n)).Ensures
      (fun f => ∃ num, f = .noClient num n) fun _ => True := by
    intro num
    refine ensures_lift ?_
    unfold Crew.player
    split
    · trivial
    · exact ⟨num, rfl⟩
  cases p with
  | windowVisible path => exact Probe.ofAll_ensures _ _
  | inZone path => exact Probe.ofAll_ensures _ _
  | inBattle => exact Probe.ofAll_ensures _ _
  | inDialog => exact Probe.ofAll_ensures _ _
  | sameZone a b =>
    exact (hplayer _).andThen fun first => (hplayer _).andThen fun second _ _ => trivial

end Predicate

/-! ### Expressions -/

namespace Expr

/-- Evaluating an expression takes questions and nothing else. -/
theorem eval_asks (crew : Crew n) (vars : Variables) (e : Expr) : (e.eval crew vars).Asks := by
  induction e with
  | number x => trivial
  | string s => trivial
  | key k => trivial
  | position x y z ihx ihy ihz =>
    refine ihx.andThen fun vx => (asks_lift _).andThen fun _ => ?_
    refine ihy.andThen fun vy => (asks_lift _).andThen fun _ => ?_
    exact ihz.andThen fun vz => (asks_lift _).andThen fun _ => trivial
  | unary op e ih =>
    cases op with
    | negate => exact ih.andThen fun v => asks_lift _
    | not => exact ih.andThen fun v => (asks_lift _).andThen fun _ => trivial
  | ask who p => exact (p.eval_asks crew who).andThen fun _ => trivial
  | var name =>
    rw [eval]
    split
    · trivial
    · trivial

/-- What an expression comes to is of a type that the expression has. -/
theorem eval_hasType (crew : Crew n) (vars : Variables) (e : Expr) :
    (e.eval crew vars).Ensures (fun _ => True) fun v => e.HasType vars v.type := by
  induction e with
  | number x => exact .number x
  | string s => exact .string s
  | key k => exact .key k
  | position x y z ihx ihy ihz =>
    refine ihx.bind fun vx hx => (ensures_lift (vx.asNumber_type _)).bind fun _ htx => ?_
    refine ihy.bind fun vy hy => (ensures_lift (vy.asNumber_type _)).bind fun _ hty => ?_
    refine ihz.bind fun vz hz => (ensures_lift (vz.asNumber_type _)).bind fun _ htz => ?_
    exact .position (htx ▸ hx) (hty ▸ hy) (htz ▸ hz)
  | unary op e ih =>
    cases op with
    | negate =>
      refine ih.bind fun v hv => (ensures_lift v.negate_type).mono (fun _ _ => trivial) ?_
      rintro v' ⟨htype, hsame⟩
      rw [hsame]
      exact .negate hv htype
    | not => exact ih.bind fun v hv => (ensures_lift v.asCondition_type).bind fun _ ht => .not hv ht
  | ask who p => exact (p.eval_asks crew who).ensures.bind fun _ _ => .ask who p
  | var name =>
    rw [eval]
    split
    · rename_i v hv
      exact .var hv
    · trivial

namespace HasType

/-- An expression that has a type comes to values of this type, and its only fault is a client that
is not there. -/
theorem eval_ensures (h : e.HasType vars T) (crew : Crew n) :
    (e.eval crew vars).Ensures (fun f => ∃ num, f = .noClient num n) fun v => v.type = T := by
  induction h with
  | number x => rfl
  | string s => rfl
  | key k => rfl
  | var hv =>
    rw [eval, hv]
    rfl
  | position _ _ _ ihx ihy ihz =>
    -- Coordinates are known to be numbers, so reading them as numbers has no faults.
    refine ihx.bind fun vx hx => ?_
    obtain ⟨x, hx⟩ := vx.exists_asNumber "xyz" hx
    rw [hx]
    refine ihy.bind fun vy hy => ?_
    obtain ⟨y, hy⟩ := vy.exists_asNumber "xyz" hy
    rw [hy]
    refine ihz.bind fun vz hz => ?_
    obtain ⟨z, hz⟩ := vz.exists_asNumber "xyz" hz
    rw [hz]
    rfl
  | negate _ hT ih =>
    refine ih.bind fun v hv => ?_
    obtain ⟨v', hnegate, htype⟩ := v.exists_negate (hv ▸ hT)
    rw [hnegate]
    exact htype.trans hv
  | not _ hT ih =>
    refine ih.bind fun v hv => ?_
    obtain ⟨b, hb⟩ := v.exists_asCondition (hv ▸ hT)
    rw [hb]
    rfl
  | ask who p => exact (p.eval_ensures crew who).bind fun _ _ => rfl

/-- An expression of another type than truth values has its value at once, and the same one whoever
the clients are. -/
theorem eval_eq_done (h : e.HasType vars T) (hT : T ≠ .bool) :
    ∃ v : Value, v.type = T ∧ ∀ {k : Nat} (crew : Crew k), e.eval crew vars = .done v := by
  induction h with
  | number x => exact ⟨_, rfl, fun _ => rfl⟩
  | string s => exact ⟨_, rfl, fun _ => rfl⟩
  | key k => exact ⟨_, rfl, fun _ => rfl⟩
  | @var name v hv =>
    refine ⟨v, rfl, fun crew => ?_⟩
    rw [eval, hv]
    rfl
  | position _ _ _ ihx ihy ihz =>
    -- Numbers are no truth values, so the coordinates are there at once as well.
    obtain ⟨vx, hx, hevalx⟩ := ihx ValueType.noConfusion
    obtain ⟨vy, hy, hevaly⟩ := ihy ValueType.noConfusion
    obtain ⟨vz, hz, hevalz⟩ := ihz ValueType.noConfusion
    obtain ⟨x, hx⟩ := vx.exists_asNumber "xyz" hx
    obtain ⟨y, hy⟩ := vy.exists_asNumber "xyz" hy
    obtain ⟨z, hz⟩ := vz.exists_asNumber "xyz" hz
    refine ⟨.position ⟨x, y, z⟩, rfl, fun crew => ?_⟩
    simp only [eval, hevalx, hevaly, hevalz, bind_eq, Activity.bind, hx, hy, hz, lift]
    rfl
  | negate _ hnum ih =>
    obtain ⟨v, hv, heval⟩ := ih hT
    obtain ⟨v', hnegate, htype⟩ := v.exists_negate (hv ▸ hnum)
    refine ⟨v', htype.trans hv, fun crew => ?_⟩
    simp only [eval, heval, bind_eq, Activity.bind, hnegate, lift]
  | not => exact absurd rfl hT
  | ask who p => exact absurd rfl hT

end HasType

variable [ClientModel σ]

/-- An expression that has a type comes to a value of this type or fails because a call fails or
there is no client of some number, unless a client does not answer; one that has none never comes to
a value. If the type is not that of truth values, the value is there at once and depends on the
variables alone. -/
theorem eval_typed (crew : Crew n) (vars : Variables) (e : Expr) (w : World σ n) :
    (∀ T, e.HasType vars T →
      (∃ fuel, (∃ w' result, (e.eval crew vars).run crew ⟨none, none⟩ fuel w = .ended w' result) ∨
        ∃ w', (e.eval crew vars).run crew ⟨none, none⟩ fuel w = .never w' ∧ w'.Hangs crew) ∧
      ∀ alarm fuel w' result, (e.eval crew vars).run crew alarm fuel w = .ended w' result →
        (∃ v : Value, result = .ok v ∧ v.type = T) ∨
        (∃ title error, result = .error (.client title error)) ∨
          ∃ num, result = .error (.noClient num n)) ∧
    ((∀ T, ¬ e.HasType vars T) → ∀ alarm fuel w' v,
      (e.eval crew vars).run crew alarm fuel w ≠ .ended w' (.ok v)) ∧
    ∀ T, e.HasType vars T → T ≠ .bool → ∃ v : Value, v.type = T ∧
      ∀ {k : Nat} (other : Crew k) {τ : Type} [ClientModel τ] (alarm : Alarm) (fuel : Nat) (u :
        World τ k), (e.eval other vars).run other alarm (fuel + 1) u = .ended u (.ok v) := by
  refine ⟨fun T hT => ⟨?_, fun alarm fuel w' result hrun => ?_⟩,
    fun hnone alarm fuel w' v hrun => ?_, fun T hT hbool => ?_⟩
  · obtain ⟨w', r', o, hcomes, hhalt, hend⟩ := (e.eval_asks crew vars).halts crew w
    obtain ⟨ticks, hrun⟩ := hcomes.run_add
    have houtcome : (e.eval crew vars).run crew ⟨none, none⟩ (0 + 1 + ticks) w = o :=
      (hrun (0 + 1)).trans (Running.run_succ_halt hhalt 0)
    refine ⟨0 + 1 + ticks, ?_⟩
    rw [houtcome]
    exact hend
  · -- The failures of clients are no faults of the expression.
    have hensures : (e.eval crew vars).Ensures
        (fun f => (∃ title error, f = .client title error) ∨ ∃ num, f = .noClient num n)
        fun v => v.type = T :=
      (hT.eval_ensures crew).mono (fun _ => .inr) fun _ => id
    have hclient : ∀ title error,
        (∃ title' error', Fault.client title error = .client title' error') ∨
        ∃ num, Fault.client title error = .noClient num n :=
      fun title error => .inl ⟨title, error, rfl⟩
    cases result with
    | ok v => exact .inl ⟨v, rfl, hensures.of_run_ok hclient hrun⟩
    | error f =>
      rcases hensures.of_run_error hclient hrun with ⟨title, error, rfl⟩ | ⟨num, rfl⟩
      · exact .inr (.inl ⟨title, error, rfl⟩)
      · exact .inr (.inr ⟨num, rfl⟩)
  · exact hnone v.type ((e.eval_hasType crew vars).of_run_ok (fun _ _ => trivial) hrun)
  · obtain ⟨v, htype, hdone⟩ := hT.eval_eq_done hbool
    refine ⟨v, htype, fun other _ _ alarm fuel u => ?_⟩
    rw [hdone other]
    rfl

/-- A place that depends on a variable. -/
def retreat : Expr := .unary .negate (.position (.var "x") (.number 2) (.number 3))

/-- Whether not everyone is in battle. -/
def peace : Expr := .unary .not (.ask .all .inBattle)

/-- The opposite of a position is there at once, whether someone is in battle takes asking, and the
opposite of the latter is never found. -/
theorem retreat_typed :
    let vars : Variables := [("x", .number 1)]
    let start : World Rehearsal 2 := unequal
    retreat.HasType vars .position ∧ peace.HasType vars .bool ∧
      (∀ T, ¬ (unary .negate peace).HasType vars T) ∧
      (∃ v : Value, v.type = .position ∧
        (retreat.eval pair vars).run pair ⟨none, none⟩ 1 start = .ended start (.ok v)) ∧
      (∃ w' v, (peace.eval pair vars).run pair ⟨none, none⟩ 20 start = .ended w' (.ok v) ∧
        v.type = .bool) ∧
      ∀ fuel w' v, ((unary .negate peace).eval pair vars).run pair ⟨none, none⟩ fuel start ≠
        .ended w' (.ok v) := by
  intro vars start
  have hretreat : retreat.HasType vars .position :=
    .negate (.position (.var (v := .number 1) rfl) (.number 2) (.number 3)) (.inr rfl)
  have hpeace : peace.HasType vars .bool := .not (.ask .all .inBattle) (.inl rfl)
  have hnone : ∀ T, ¬ (unary .negate peace).HasType vars T := by
    rintro T (_ | _ | _ | _ | _ | ⟨htype, hT⟩)
    cases htype with
    | not => rcases hT with hT | hT <;> cases hT
  refine ⟨hretreat, hpeace, hnone, ?_, ?_, fun fuel w' v => ?_⟩
  · obtain ⟨v, htype, hrun⟩ := (eval_typed pair vars retreat start).2.2 .position hretreat nofun
    exact ⟨v, htype, hrun pair ⟨none, none⟩ 0 start⟩
  · refine ⟨_, .bool false, rfl, ?_⟩
    rcases ((eval_typed pair vars peace start).1 .bool hpeace).2 ⟨none, none⟩ 20 _
      (.ok (.bool false)) rfl
      with ⟨v, hv, htype⟩ | ⟨_, _, herror⟩ | ⟨_, herror⟩
    · cases hv
      exact htype
    · cases herror
    · cases herror
  · exact (eval_typed pair vars (unary .negate peace) start).2.1 hnone ⟨none, none⟩ fuel w' v

end Expr

end BotScript
