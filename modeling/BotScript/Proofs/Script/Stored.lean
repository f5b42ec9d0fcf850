import BotScript.Proofs.Json.Record
import BotScript.Script.Statement

/-!
# Scripts read back

Whatever is stored can be read back: of a selector, an expression, a command, a statement or a whole
script, reading the stored form gives what was stored.

## Main results

* `Expr.ofJson?_eq`, `Statement.ofJson?_eq`: expressions and statements are read with those in them.
* `Expr.ofJson?_toJson`, `Command.ofJson?_toJson`, `Statement.ofJson?_toJson`: the
  stored form is read back.
* `Script.ofJson?_toJson`: the same for whole scripts.
-/

namespace BotScript

open Json Json.Record

/-! ### Values within values -/

/-- What an expression is made of does not matter, except for the values in it. -/
theorem Expr.reader?_shallow {d : Nat} {read read' : Json → Option Expr}
    (h : ∀ j, depth j ≤ d → read j = read' j) (name : String) :
    Option.Rel (Related (Shallow d)) (Expr.reader? read name) (Expr.reader? read' name) := by
  have hexpr : ∀ key, Related (Shallow d) (required key read) (required key read') := fun key =>
    related_field_shallow h key _
  have hother : ∀ {α : Type} (key : String) (read : Json → Option α) (missing : Missing α),
      Related (Shallow d) (field key read missing) (field key read missing) :=
    fun key read missing =>
    related_field_shallow (fun _ _ => rfl) key missing
  unfold Expr.reader?
  split
  · exact .some ((hother _ _ _).map _)
  · exact .some ((hother _ _ _).map _)
  · exact .some ((hother _ _ _).map _)
  · refine .some ((hexpr "x").bind fun x => (hexpr "y").bind fun y => (hexpr "z").bind fun z => ?_)
    exact related_pure _
  · refine .some ((hother _ _ _).bind fun op => (hexpr "expr").bind fun e => ?_)
    exact related_pure _
  · refine .some ((hother _ _ _).bind fun who => (hother _ _ _).bind fun p => ?_)
    exact related_pure _
  · exact .some ((hother _ _ _).map _)
  · exact .none

/-- An expression is read with the expressions in it. -/
theorem Expr.ofJson?_eq (j : Json) :
    Expr.ofJson? j = variant? "type" (Expr.reader? Expr.ofJson?) j :=
  variant?_fixed Expr.reader? (fun _ => rfl) (fun _ _ => rfl) (fun _ _ _ h =>
    Expr.reader?_shallow h) j

/-- What a statement is made of does not matter, except for the values in it. -/
theorem Statement.reader?_shallow {d : Nat} {body body' : Json → Option (List Statement)}
    (h : ∀ j, depth j ≤ d → body j = body' j) (name : String) :
    Option.Rel (Related (Shallow d)) (Statement.reader? body name)
      (Statement.reader? body' name) := by
  have hbody : ∀ key missing,
      Related (Shallow d) (field key body missing) (field key body' missing) :=
    fun key missing => related_field_shallow h key missing
  have hother : ∀ {α : Type} (key : String) (read : Json → Option α) (missing : Missing α),
      Related (Shallow d) (field key read missing) (field key read missing) :=
    fun key read missing =>
    related_field_shallow (fun _ _ => rfl) key missing
  unfold Statement.reader?
  split
  · exact .some ((hbody _ _).map _)
  · exact .some ((hother _ _ _).map _)
  · exact .some ((hother _ _ _).bind fun name => (hbody _ _).bind fun body => related_pure _)
  · refine .some ((hother _ _ _).bind fun test => (hbody _ _).bind fun yes =>
      (hbody _ _).bind fun no => ?_)
    exact related_pure _
  · exact .some ((hother _ _ _).bind fun test => (hbody _ _).bind fun body => related_pure _)
  · exact .some ((hother _ _ _).bind fun test => (hbody _ _).bind fun body => related_pure _)
  · exact .some ((hbody _ _).map _)
  · exact .some ((hother _ _ _).map _)
  · exact .some ((hother _ _ _).bind fun name => (hother _ _ _).bind fun value => related_pure _)
  · exact .some ((hother _ _ _).map _)
  · exact .none

/-- A statement is read with the statements in it. -/
theorem Statement.ofJson?_eq (j : Json) :
    Statement.ofJson? j = variant? "type" (Statement.reader? (list? Statement.ofJson?)) j := by
  refine variant?_fixed (fun read => Statement.reader? (list? read)) (fun _ => rfl) (fun _ _ => rfl)
    (fun d f g h => Statement.reader?_shallow fun k hk => ?_) j
  exact list?_congr h (Nat.le_succ_of_le hk)

/-! ### Reading back -/

/-- The stored form of a variant is read by the reader of that variant. -/
@[simp] theorem variant?_variant {α : Type} {tag name : String} {fields : List (String × Json)}
    {reader? : String → Option (Record α)} (h : valuesOf tag fields = []) :
    variant? tag reader? (.variant tag name fields) =
      (reader? name).bind fun r => r.all (.named ((tag, .str name) :: fields)) := by
  have hname : fieldAt tag string? none ((tag, .str name) :: fields) = some name := by
    simp [fieldAt, h, string?]
  unfold variant? Json.variant
  rw [tagged?_obj, hname]
  rfl

theorem variant?_bare {α : Type} {tag name : String} {reader? : String → Option (Record α)} {a : α}
    (h : reader? name = some (pure a)) : variant? tag reader? (.variant tag name []) = some a := by
  rw [variant?_variant rfl, h]
  rfl

@[simp] theorem UnaryOp.ofJson?_toJson (op : UnaryOp) : UnaryOp.ofJson? op.toJson = some op := by
  cases op <;> rfl

@[simp] theorem path?_pathToJson (path : List String) : path? (pathToJson path) = some path :=
  list?_map fun _ _ => rfl

@[simp] theorem natural?_toNat (n : UInt64) : natural? (.int n.toNat) = some n.toNat := by
  have hlt : (n.toNat : Int) < UInt64.size := by exact_mod_cast n.toNat_lt_size
  rw [natural?, if_pos ⟨Int.natCast_nonneg _, hlt⟩, Int.toNat_natCast]

theorem PlayerSet.place_append {l : List UInt64} {n : UInt64} (h : ∀ m ∈ l, m < n) :
    PlayerSet.place n l = l ++ [n] := by
  induction l with
  | nil => rfl
  | cons m rest ih =>
    have hm := h m List.mem_cons_self
    have hnot : ¬ n < m := UInt64.not_lt.2 (UInt64.le_of_lt hm)
    have hne : n ≠ m := fun heq => UInt64.lt_irrefl m (heq ▸ hm)
    rw [place, if_neg hnot, if_neg hne, ih fun k hk => h k (List.mem_cons_of_mem m hk),
      List.cons_append]

/-- The numbers of a set make up the set. -/
theorem PlayerSet.ofList_nums (s : PlayerSet) : PlayerSet.ofList s.nums = s := by
  have hfold : ∀ (l : List UInt64) (acc : PlayerSet), (acc.nums ++ l).Pairwise (· < ·) →
      (l.foldl insert acc).nums = acc.nums ++ l := by
    intro l
    induction l with
    | nil =>
      intro acc _
      simp
    | cons n rest ih =>
      intro acc h
      -- All numbers that were placed before are smaller.
      have hbefore : ∀ m ∈ acc.nums, m < n := fun m hm =>
        (List.pairwise_append.1 h).2.2 m hm n List.mem_cons_self
      have hplace : (acc.insert n).nums = acc.nums ++ [n] := place_append hbefore
      rw [List.foldl_cons, ih, hplace, List.append_assoc, List.singleton_append]
      rw [hplace, List.append_assoc, List.singleton_append]
      exact h
  have hnums : (PlayerSet.ofList s.nums).nums = s.nums := by
    simpa [ofList] using hfold s.nums ⟨[], .nil⟩ (by simpa using s.increasing)
  generalize PlayerSet.ofList s.nums = t at hnums
  cases s
  cases t
  cases hnums
  rfl

@[simp] theorem Selector.ofJson?_toJson (s : Selector) : Selector.ofJson? s.toJson = some s := by
  have hplayers : list? natural? (.arr (s.players.nums.map fun n => .int n.toNat)) =
      some (s.players.nums.map UInt64.toNat) := by
    have hmap : (s.players.nums.map fun n => Json.int n.toNat) =
        (s.players.nums.map UInt64.toNat).map fun k : Nat => .int k := by
      rw [List.map_map]
      rfl
    -- Each of them is in range, since it comes from a word.
    rw [hmap]
    refine list?_map fun k hk => ?_
    obtain ⟨n, -, rfl⟩ := List.mem_map.1 hk
    exact natural?_toNat n
  simp [Selector.ofJson?, Selector.toJson, record, fields?, fieldAt, bool?, hplayers,
    Function.comp_def, PlayerSet.ofList_nums]

@[simp] theorem Predicate.ofJson?_toJson (p : Predicate) : Predicate.ofJson? p.toJson = some p := by
  cases p with
  | windowVisible path | inZone path =>
    simp [Predicate.ofJson?, Predicate.toJson, Predicate.reader?, fieldAt]
  | sameZone a b =>
    have hback : ∀ n : UInt64, n.toNat.toUInt64 = n := fun _ => UInt64.ofNat_toNat
    -- The fields stay abstract here: the kernel would compute with the bound of the
    -- numbers otherwise.
    have hread : ∀ fields, fieldAt "a" natural? none fields = some a.toNat →
        fieldAt "b" natural? none fields = some b.toNat →
        ((Predicate.reader? "same_zone").bind fun r => r.all (.named fields)) = some
        (.sameZone a b) := by
      intro fields ha hb
      simp only [Predicate.reader?, Option.bind_some, required, all_bind, ha, hb, hback, all_pure]
    rw [Predicate.ofJson?, Predicate.toJson, variant?_variant (by simp)]
    exact hread _ (by simp [fieldAt]) (by simp [fieldAt])
  | inBattle | inDialog => exact variant?_bare (by simp [Predicate.reader?])

@[simp] theorem Expr.ofJson?_toJson (e : Expr) : Expr.ofJson? e.toJson = some e := by
  rw [Expr.ofJson?_eq]
  induction e with
  | number x | string s | key k | var name =>
    simp [Expr.toJson, Expr.reader?, fieldAt, number?, string?]
  | position x y z hx hy hz =>
    rw [← Expr.ofJson?_eq] at hx hy hz
    simp [Expr.toJson, Expr.reader?, fieldAt, hx, hy, hz]
  | unary op e he =>
    rw [← Expr.ofJson?_eq] at he
    simp [Expr.toJson, Expr.reader?, fieldAt, he]
  | ask who p => simp [Expr.toJson, Expr.reader?, fieldAt]

@[simp] theorem LogToken.ofJson?_toJson (t : LogToken) : LogToken.ofJson? t.toJson = some t := by
  cases t <;> simp [LogToken.ofJson?, LogToken.toJson, pair?, name?, string?]

@[simp] theorem LogOutput.ofJson?_toJson (o : LogOutput) : LogOutput.ofJson? o.toJson = some o := by
  cases o with
  | literal tokens =>
    have htokens : list? LogToken.ofJson? (.arr (tokens.map LogToken.toJson)) = some tokens :=
      list?_map fun t _ => LogToken.ofJson?_toJson t
    simp [LogOutput.ofJson?, LogOutput.toJson, LogOutput.reader?, fieldAt, htokens]
  | window path => simp [LogOutput.ofJson?, LogOutput.toJson, LogOutput.reader?, fieldAt]

@[simp] theorem Destination.ofJson?_toJson (d : Destination) :
    Destination.ofJson? d.toJson = some d := by
  cases d with
  | position e => simp [Destination.ofJson?, Destination.toJson, Destination.reader?, fieldAt]
  | entity name | entityLike name | friendName name =>
    simp [Destination.ofJson?, Destination.toJson, Destination.reader?, fieldAt, string?]
  | mob | quest | friendIcon => exact variant?_bare (by simp [Destination.reader?])

@[simp] theorem WaitKind.ofJson?_toJson (k : WaitKind) : WaitKind.ofJson? k.toJson = some k := by
  cases k with
  | dialog | battle | free | zoneChange => exact variant?_bare (by simp [WaitKind.reader?])
  | window path => simp [WaitKind.ofJson?, WaitKind.toJson, WaitKind.reader?, fieldAt]

/-- The stored form of an expression is not `null`. -/
@[simp] theorem orNull_toJson (e : Expr) : orNull Expr.ofJson? e.toJson = some (some e) := by
  have hread := Expr.ofJson?_toJson e
  cases hstored : e.toJson with
  | null =>
    rw [hstored, Expr.ofJson?_eq] at hread
    cases hread
  | _ =>
    rw [hstored] at hread
    simp [orNull, hread]

/-- No action has the name of a command that is not one. -/
@[simp] theorem Action.ofJson?_toJson (a : Action) :
    CommandKind.ofJson? (a.toJson "type") = some (.act a) := by
  rw [CommandKind.ofJson?, Action.toJson]
  cases a with
  | sendKey key seconds =>
    cases seconds with
    | none =>
      simp [Action.name, Action.fields, CommandKind.reader?, Action.reader?, fieldAt, orNull]
    | some e => simp [Action.name, Action.fields, CommandKind.reader?, Action.reader?, fieldAt]
  | click _ _ | teleport _ | goTo _ | toZone _ =>
    simp [Action.name, Action.fields, CommandKind.reader?, Action.reader?, fieldAt]
  | usePotion | buyPotions | relog =>
    exact variant?_bare (by simp [Action.name, CommandKind.reader?, Action.reader?])
  | waitFor w =>
    simp [Action.name, Action.fields, CommandKind.reader?, Action.reader?, fieldAt, bool?]

@[simp] theorem CommandKind.ofJson?_toJson (k : CommandKind) :
    CommandKind.ofJson? k.toJson = some k := by
  cases k with
  | kill => exact variant?_bare (by simp [CommandKind.reader?])
  | sleep _ | log _ | expr _ =>
    simp [CommandKind.ofJson?, CommandKind.toJson, CommandKind.reader?, fieldAt]
  | act a => exact Action.ofJson?_toJson a
  | loadPlaystyle text =>
    simp [CommandKind.ofJson?, CommandKind.toJson, CommandKind.reader?, fieldAt, string?]

@[simp] theorem Command.ofJson?_toJson (c : Command) : Command.ofJson? c.toJson = some c := by
  simp [Command.ofJson?, Command.toJson, record, fields?, fieldAt]

mutual

@[simp] theorem Statement.ofJson?_toJson (s : Statement) : Statement.ofJson? s.toJson = some s := by
  rw [Statement.ofJson?_eq]
  cases s with
  | list body | loop body =>
    simp [Statement.toJson, Statement.reader?, fieldAt, Statement.list?_toJsons body]
  | command c => simp [Statement.toJson, Statement.reader?, fieldAt]
  | block name body =>
    simp [Statement.toJson, Statement.reader?, fieldAt, string?, Statement.list?_toJsons body]
  | branch test yes no =>
    simp [Statement.toJson, Statement.reader?, fieldAt, Statement.list?_toJsons yes,
      Statement.list?_toJsons no]
  | whileLoop test body | untilLoop test body =>
    simp [Statement.toJson, Statement.reader?, fieldAt, Statement.list?_toJsons body]
  | call name | decrement name | assign name value =>
    simp [Statement.toJson, Statement.reader?, fieldAt, string?]

theorem Statement.list?_toJsons (body : List Statement) :
    list? Statement.ofJson? (.arr (Statement.toJsons body)) = some body := by
  cases body with
  | nil => rfl
  | cons s rest =>
    have hrest := Statement.list?_toJsons rest
    simp only [list?] at hrest
    rw [Statement.toJsons, list?, List.mapM_cons, Statement.ofJson?_toJson s, hrest]
    rfl

end

/-- A script can be read back from its stored form. -/
theorem Script.ofJson?_toJson (s : Script) :
    Script.ofJson? s.toJson = some s := Statement.list?_toJsons s

end BotScript
