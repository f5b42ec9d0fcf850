import BotScript.Program.Basic
import BotScript.Proofs.Json.Numbers
import BotScript.Proofs.Script.Stored
import BotScript.Script.Value

/-!
# Programs and values read back

A program can be stored and read back, whatever its instructions are, and so can a value: what is
read is what was stored, unless a number in it is not finite. What is read from a value without such
numbers has none either, so it can be stored and read back in turn.

## Main definitions

* `Program.numbers`, `Value.numbers`: the numbers in a program and in a value.

## Main results

* `Instruction.ofJson?_toJson`, `Program.ofJson?_toJson`, `Value.ofJson?_toJson`: the
  stored form is read back.
* `Program.written_toJson`, `Value.written_toJson`: finite numbers stay in the text.
* `Program.reads_numbers`: the numbers of a program that is read are those of what it is read from.
* `Program.survives_storage`: programs and values survive being stored.
-/

namespace BotScript

open Json Json.Record

/-! ### Numbers -/

/-- The numbers in an expression. -/
def Expr.numbers : Expr → List Float
  | number x => [x]
  | position x y z => x.numbers ++ y.numbers ++ z.numbers
  | unary _ e => e.numbers
  | string _ | key _ | ask .. | var _ => []

/-- The numbers in a destination. -/
def Destination.numbers : Destination → List Float
  | position e => e.numbers
  | entity _ | entityLike _ | mob | quest | friendIcon | friendName _ => []

/-- The numbers in an action. -/
def Action.numbers : Action → List Float
  | sendKey key seconds => key.numbers ++ (seconds.map Expr.numbers).getD []
  | click x y => x.numbers ++ y.numbers
  | teleport goal => goal.numbers
  | goTo target => target.numbers
  | usePotion | buyPotions | relog | toZone _ | waitFor _ => []

/-- The numbers in an instruction. -/
def Instruction.numbers : Instruction → List Float
  | sleep e | jumpIf e _ | jumpIfNot e _ | enterUntil e _ | assign _ e => e.numbers
  | act _ a => a.numbers
  | kill | logLiteral _ | logWindow .. | jump _ | label _ | ret | call _ | loadPlaystyle
    .. | decrement _
  | nop => []

/-- The numbers in a program. -/
def Program.numbers (p : Program) : List Float := p.code.flatMap Instruction.numbers

/-- The numbers in a value. -/
def Value.numbers : Value → List Float
  | number x => [x]
  | position p => [p.x, p.y, p.z]
  | string _ | key _ | bool _ => []

/-! ### Reading back -/

namespace Instruction

@[simp] theorem readOffset_toInt (offset : Int64) :
    readOffset (.int offset.toInt) = some offset := by
  have hlow := offset.minValue_le_toInt
  have hhigh : offset.toInt ≤ Int64.maxValue.toInt := by
    have hlt := offset.toInt_lt
    have hmax : Int64.maxValue.toInt = 2 ^ 63 - 1 := rfl
    omega
  rw [readOffset, integer?, if_pos ⟨hlow, hhigh⟩, Option.map_some, Int64.ofInt_toInt]

/-- An action is stored in a program as in a script, but for the name of its tag. -/
@[simp] theorem readAction_toJson (a : Action) : readAction (a.toJson "action") = some a := by
  rw [readAction, Action.toJson]
  cases a with
  | sendKey key seconds =>
    cases seconds with
    | none => simp [Action.name, Action.fields, Action.reader?, nullable, fieldAt, orNull]
    | some e => simp [Action.name, Action.fields, Action.reader?, nullable, fieldAt]
  | click _ _ | teleport _ | goTo _ | toZone _ =>
    simp [Action.name, Action.fields, Action.reader?, fieldAt]
  | usePotion | buyPotions | relog => exact variant?_bare (by simp [Action.name, Action.reader?])
  | waitFor w => simp [Action.name, Action.fields, Action.reader?, fieldAt, bool?]

/-- The kind and the content of a stored instruction. -/
theorem pair?_toJson (i : Instruction) :
    pair? "kind" "data" i.toJson = some (i.kind, i.content?) := by
  unfold toJson
  cases i.content? with
  | none => simp [pair?, name?]
  | some c => simp [pair?, name?]

/-- A content with two fields is read back if each of them is. -/
theorem readNamed_pair {β γ α : Type} {first second : String} (hne : first ≠ second)
    {f : Json → Option β} {g : Json → Option γ} {x : β} {y : γ} {j j' : Json} (hx : f j = some x)
    (hy : g j' = some y) (make : β → γ → α) :
    readNamed (do
      let x ← required first f
      let y ← required second g
      return make x y) (.obj [(first, j), (second, j')]) = some (make x y) := by
  simp [readNamed, fieldAt, hne, hne.symm, hx, hy]

@[simp] theorem ofJson?_toJson (i : Instruction) : Instruction.ofJson? i.toJson = some i := by
  rw [ofJson?, pair?_toJson]
  cases i with
  | kill | ret | nop => rfl
  | sleep e => exact congrArg (Option.map sleep) (Expr.ofJson?_toJson e)
  | logLiteral tokens =>
    exact congrArg (Option.map logLiteral) (list?_map fun t _ => LogToken.ofJson?_toJson t)
  | jump offset => exact congrArg (Option.map jump) (readOffset_toInt offset)
  | label name | call name | decrement name => rfl
  | logWindow who path =>
    exact readNamed_pair (by decide) (Selector.ofJson?_toJson who) (path?_pathToJson path) logWindow
  | jumpIf e offset =>
    exact readNamed_pair (by decide) (Expr.ofJson?_toJson e) (readOffset_toInt offset) jumpIf
  | jumpIfNot e offset =>
    exact readNamed_pair (by decide) (Expr.ofJson?_toJson e) (readOffset_toInt offset) jumpIfNot
  | enterUntil e offset =>
    exact readNamed_pair (by decide) (Expr.ofJson?_toJson e) (readOffset_toInt offset) enterUntil
  | act who a =>
    exact readNamed_pair (by decide) (Selector.ofJson?_toJson who) (readAction_toJson a) act
  | loadPlaystyle who text =>
    exact readNamed_pair (by decide) (Selector.ofJson?_toJson who) (y := text) rfl loadPlaystyle
  | assign name e => exact readNamed_pair (by decide) (x := name) rfl (Expr.ofJson?_toJson e) assign

end Instruction

/-- A program can be read back from its stored form. -/
theorem Program.ofJson?_toJson (p : Program) : Program.ofJson? p.toJson = some p := by
  rw [Program.ofJson?, Program.toJson, list?_map fun i _ => Instruction.ofJson?_toJson i]
  rfl

theorem Value.ofJson?_toJson (v : Value) : Value.ofJson? v.toJson = some v := by
  cases v with
  | number x | string s | key k | bool b =>
    simp [Value.ofJson?, Value.toJson, Value.toJson.pair, pair?, name?, Json.number?, string?,
      bool?]
  | position p =>
    have hposition : Position.ofJson? p.toJson = some p := by
      simp [Position.ofJson?, Position.toJson, record, fields?, fieldAt, Json.number?]
    simp [Value.ofJson?, Value.toJson, Value.toJson.pair, pair?, name?, hposition]

/-! ### Finite numbers are written down -/

/-- All of some numbers are finite. -/
def Finite (xs : List Float) : Prop := ∀ x ∈ xs, Number.isFinite x = true

theorem finite_append {xs ys : List Float} : Finite (xs ++ ys) ↔ Finite xs ∧ Finite ys := by
  simp only [Finite, List.mem_append]
  constructor
  · exact fun h => ⟨fun x hx => h x (.inl hx), fun x hx => h x (.inr hx)⟩
  · rintro ⟨hxs, hys⟩ x (hx | hx)
    · exact hxs x hx
    · exact hys x hx

section Written

attribute [local simp] written writtenFields writtenItems Json.variant

theorem written_path (path : List String) : (pathToJson path).written = pathToJson path := by
  rw [pathToJson, written, writtenItems_eq_self]
  intro j hj
  obtain ⟨s, -, rfl⟩ := List.mem_map.1 hj
  rfl

theorem Selector.written_toJson (s : Selector) : s.toJson.written = s.toJson := by
  have hnums : writtenItems (s.players.nums.map fun n => .int n.toNat) =
      s.players.nums.map fun n => .int n.toNat := by
    refine writtenItems_eq_self fun j hj => ?_
    obtain ⟨n, -, rfl⟩ := List.mem_map.1 hj
    rfl
  simp [Selector.toJson, hnums]

theorem Predicate.written_toJson (p : Predicate) : p.toJson.written = p.toJson := by
  cases p <;> simp [Predicate.toJson, written_path]

theorem Expr.written_toJson {e : Expr} (h : Finite e.numbers) : e.toJson.written = e.toJson := by
  induction e with
  | number x => simp [Expr.toJson, h x (by simp [Expr.numbers])]
  | string s | key k | var name => simp [Expr.toJson]
  | position x y z hx hy hz =>
    obtain ⟨hxy, hfz⟩ := finite_append.1 h
    obtain ⟨hfx, hfy⟩ := finite_append.1 hxy
    simp [Expr.toJson, hx hfx, hy hfy, hz hfz]
  | unary op e he =>
    have hop : op.toJson.written = op.toJson := by cases op <;> rfl
    simp [Expr.toJson, hop, he h]
  | ask who p => simp [Expr.toJson, Selector.written_toJson, Predicate.written_toJson]

theorem Action.written_toJson {a : Action} (h : Finite a.numbers) (tag : String) :
    (a.toJson tag).written = a.toJson tag := by
  cases a with
  | sendKey key seconds =>
    obtain ⟨hkey, hseconds⟩ := finite_append.1 h
    cases seconds with
    | none => simp [Action.toJson, Action.fields, Expr.written_toJson hkey]
    | some e =>
      simp [Action.toJson, Action.fields, Expr.written_toJson hkey, Expr.written_toJson hseconds]
  | click x y =>
    obtain ⟨hx, hy⟩ := finite_append.1 h
    simp [Action.toJson, Action.fields, Expr.written_toJson hx, Expr.written_toJson hy]
  | teleport goal =>
    have hgoal : goal.toJson.written = goal.toJson := by
      cases goal with
      | position e => simp [Destination.toJson, Expr.written_toJson h]
      | _ => simp [Destination.toJson]
    simp [Action.toJson, Action.fields, hgoal]
  | goTo target => simp [Action.toJson, Action.fields, Expr.written_toJson h]
  | usePotion | buyPotions | relog => simp [Action.toJson, Action.fields]
  | toZone path => simp [Action.toJson, Action.fields, written_path]
  | waitFor w =>
    have hkind : w.kind.toJson.written = w.kind.toJson := by
      cases w.kind <;> simp [WaitKind.toJson, written_path]
    simp [Action.toJson, Action.fields, hkind]

theorem Instruction.written_toJson {i : Instruction} (h : Finite i.numbers) :
    i.toJson.written = i.toJson := by
  cases i with
  | kill | ret | nop | jump _ | label _ | call _ | decrement _ =>
    simp [Instruction.toJson, content?]
  | sleep e => simp [Instruction.toJson, content?, Expr.written_toJson h]
  | logLiteral tokens =>
    have htokens : writtenItems (tokens.map LogToken.toJson) = tokens.map LogToken.toJson := by
      refine writtenItems_eq_self fun j hj => ?_
      obtain ⟨t, -, rfl⟩ := List.mem_map.1 hj
      cases t <;> rfl
    simp [Instruction.toJson, content?, htokens]
  | logWindow who path => simp [Instruction.toJson, content?, Selector.written_toJson, written_path]
  | jumpIf e _ | jumpIfNot e _ | enterUntil e _ | assign _ e =>
    simp [Instruction.toJson, content?, Expr.written_toJson h]
  | act who a =>
    simp [Instruction.toJson, content?, Selector.written_toJson, Action.written_toJson h]
  | loadPlaystyle who text => simp [Instruction.toJson, content?, Selector.written_toJson]

/-- The stored form of a program with finite numbers is what its text stands for. -/
theorem Program.written_toJson {p : Program} (h : Finite p.numbers) :
    p.toJson.written = p.toJson := by
  rw [Program.toJson, written, writtenItems_eq_self]
  intro j hj
  obtain ⟨i, hi, rfl⟩ := List.mem_map.1 hj
  exact Instruction.written_toJson fun x hx => h x (List.mem_flatMap.2 ⟨i, hi, hx⟩)

theorem Value.written_toJson {v : Value} (h : Finite v.numbers) : v.toJson.written = v.toJson := by
  cases v with
  | number x => simp [Value.toJson, Value.toJson.pair, h x (by simp [Value.numbers])]
  | string s | key k | bool b => simp [Value.toJson, Value.toJson.pair]
  | position p =>
    simp [Value.toJson, Value.toJson.pair, Position.toJson, h p.x (by simp [Value.numbers]),
      h p.y (by simp [Value.numbers]), h p.z (by simp [Value.numbers])]

end Written

/-! ### Numbers come from what is read -/

section Reading

variable {S : Float → Prop}

theorem Expr.reads_numbers : Reads S Expr.ofJson? fun e => ∀ x ∈ e.numbers, S x := by
  -- As deep as the expression is stored, whatever reads the expressions in it.
  have hread : ∀ fuel, Reads S (Expr.read fuel) fun e => ∀ x ∈ e.numbers, S x := by
    intro fuel
    induction fuel with
    | zero => exact fun j e _ he => nomatch he
    | succ fuel ih =>
      apply Draws.variant
      intro name r hr
      unfold Expr.reader? at hr
      split at hr <;> cases hr
      · exact (Draws.required .number).map fun x hx => by simpa [Expr.numbers] using hx
      · exact (Draws.required (.trivial _)).map fun s _ => by simp [Expr.numbers]
      · exact (Draws.required (.trivial _)).map fun s _ => by simp [Expr.numbers]
      · refine (Draws.required ih).bind fun a ha => (Draws.required ih).bind fun b hb => ?_
        refine (Draws.required ih).bind fun c hc => .pure fun x hx => ?_
        simp only [Expr.numbers, List.mem_append] at hx
        rcases hx with (hx | hx) | hx
        · exact ha x hx
        · exact hb x hx
        · exact hc x hx
      · refine (Draws.required (.trivial _)).bind fun op _ => ?_
        exact (Draws.required ih).bind fun e he => .pure he
      · refine (Draws.field (.trivial _) (by simp) (by simp)).bind fun who _ => ?_
        exact (Draws.required (.trivial _)).bind fun p _ => .pure (by simp [Expr.numbers])
      · exact (Draws.required (.trivial _)).map fun s _ => by simp [Expr.numbers]
  exact fun j e hj he => hread j.depth j e hj he

theorem Destination.reads_numbers : Reads S Destination.ofJson? fun d => ∀ x ∈ d.numbers, S x := by
  apply Draws.variant
  intro name r hr
  unfold Destination.reader? at hr
  split at hr <;> cases hr
  · exact (Draws.required Expr.reads_numbers).map fun e he => he
  · exact (Draws.required (.trivial _)).map fun s _ => by simp [Destination.numbers]
  · exact (Draws.required (.trivial _)).map fun s _ => by simp [Destination.numbers]
  · exact .pure (by simp [Destination.numbers])
  · exact .pure (by simp [Destination.numbers])
  · exact .pure (by simp [Destination.numbers])
  · exact (Draws.required (.trivial _)).map fun s _ => by simp [Destination.numbers]

theorem Action.reads_numbers : Reads S Instruction.readAction fun a => ∀ x ∈ a.numbers, S x := by
  have hexpr : ∀ key, Draws S (required key Expr.ofJson?) fun e => ∀ x ∈ e.numbers, S x :=
    fun _ => .required Expr.reads_numbers
  apply Draws.variant
  intro name r hr
  unfold Action.reader? at hr
  split at hr <;> cases hr
  · refine (hexpr "key").bind fun key hkey => ?_
    refine (Draws.field Expr.reads_numbers.orNull (by simp) (by simp)).bind ?_
    intro seconds hseconds
    refine .pure fun x hx => ?_
    simp only [Action.numbers, List.mem_append] at hx
    rcases hx with hx | hx
    · exact hkey x hx
    · cases seconds with
      | none => cases hx
      | some e => exact hseconds e rfl x hx
  · refine (hexpr "x").bind fun a ha => (hexpr "y").bind fun b hb => .pure fun x hx => ?_
    rcases List.mem_append.1 hx with hx | hx
    · exact ha x hx
    · exact hb x hx
  · exact (Draws.required Destination.reads_numbers).map fun d hd => hd
  · exact (hexpr "target").map fun e he => he
  · exact .pure (by simp [Action.numbers])
  · exact .pure (by simp [Action.numbers])
  · exact .pure (by simp [Action.numbers])
  · exact (Draws.required (.trivial _)).map fun path _ => by simp [Action.numbers]
  · refine (Draws.required (.trivial _)).bind fun kind _ => ?_
    exact (Draws.field (.trivial _) (by simp) (by simp)).bind fun completion _ =>
      .pure (by simp [Action.numbers])

namespace Instruction

/-- Fields of a content that stand under their names. -/
theorem reads_named {α : Type} {r : Json.Record α} {Q : α → Prop} (h : Draws S r Q) :
    Reads S (readNamed r) Q := by
  intro j a hj ha
  unfold readNamed at ha
  split at ha
  · rename_i fields
    have hfields : (Fields.named fields).Has S := fun p hp => has_obj hj hp
    exact h.all hfields ha
  · cases ha

theorem draws_guarded {make : Expr → Int64 → Instruction}
    (hmake : ∀ e offset, (make e offset).numbers = e.numbers) :
    Draws S (guarded make) fun i => ∀ x ∈ i.numbers, S x := by
  refine (Draws.required Expr.reads_numbers).bind fun e he => ?_
  refine (Draws.required (.trivial _)).bind fun offset _ => .pure ?_
  rw [hmake]
  exact he

/-- An instruction is read with the numbers of its content. -/
theorem reads_content (kind : String) :
    Reads S (readContent kind) fun i => ∀ x ∈ i.numbers, S x := by
  intro c i hc hi
  -- A content with several fields, one without numbers, and an expression.
  have hnamed : ∀ {r : Json.Record Instruction}, Draws S r (fun i => ∀ x ∈ i.numbers, S x) →
      readNamed r c = some i → ∀ x ∈ i.numbers, S x := fun h => reads_named h c i hc
  have hplain : ∀ {α : Type} {read : Option α} {make : α → Instruction},
      (∀ a, (make a).numbers = []) → make <$> read = some i → ∀ x ∈ i.numbers, S x := by
    intro α read make hmake h
    obtain ⟨a, -, rfl⟩ := Option.map_eq_some_iff.1 h
    rw [hmake]
    exact fun x hx => nomatch hx
  unfold readContent at hi
  split at hi
  · obtain ⟨e, he, rfl⟩ := Option.map_eq_some_iff.1 hi
    exact Expr.reads_numbers c e hc he
  · exact hplain (fun _ => rfl) hi
  · refine hnamed ((Draws.required (.trivial _)).bind fun who _ => ?_) hi
    exact (Draws.required (.trivial _)).bind fun path _ => .pure fun x hx => nomatch hx
  · exact hplain (fun _ => rfl) hi
  · exact hnamed (draws_guarded fun _ _ => rfl) hi
  · exact hnamed (draws_guarded fun _ _ => rfl) hi
  · exact hnamed (draws_guarded fun _ _ => rfl) hi
  · exact hplain (fun _ => rfl) hi
  · exact hplain (fun _ => rfl) hi
  · refine hnamed ((Draws.required (.trivial _)).bind fun who _ => ?_) hi
    exact (Draws.required Action.reads_numbers).bind fun a ha => .pure ha
  · refine hnamed ((Draws.required (.trivial _)).bind fun who _ => ?_) hi
    exact (Draws.required (.trivial _)).bind fun text _ => .pure fun x hx => nomatch hx
  · refine hnamed ((Draws.required (.trivial _)).bind fun name _ => ?_) hi
    exact (Draws.required Expr.reads_numbers).bind fun e he => .pure he
  · exact hplain (fun _ => rfl) hi
  · cases hi

theorem reads_numbers : Reads S Instruction.ofJson? fun i => ∀ x ∈ i.numbers, S x := by
  have hbare : ∀ {i j : Instruction} {content : Option Json}, j.numbers = [] →
      withoutContent j content = some i → ∀ x ∈ i.numbers, S x := by
    intro i j content hj hi
    unfold withoutContent at hi
    split at hi <;> cases hi
    · rw [hj]
      exact fun x hx => nomatch hx
    · rw [hj]
      exact fun x hx => nomatch hx
  intro j i hj hi
  obtain ⟨⟨kind, content⟩, hpair, hi⟩ := Option.bind_eq_some_iff.1 hi
  dsimp only at hi
  split at hi
  · exact hbare rfl hi
  · exact hbare rfl hi
  · exact hbare rfl hi
  · obtain ⟨c, rfl, hread⟩ := Option.bind_eq_some_iff.1 hi
    exact reads_content _ c i (content_of_pair? hj hpair) hread

end Instruction

/-- The numbers of a program that is read are those of what it is read from. -/
theorem Program.reads_numbers : Reads S Program.ofJson? fun p => ∀ x ∈ p.numbers, S x := by
  refine Instruction.reads_numbers.list.map fun code hcode x hx => ?_
  obtain ⟨i, hi, hx⟩ := List.mem_flatMap.1 hx
  exact hcode i hi x hx

end Reading

/-- The text of a JSON value is that of the value it stands for. From this value, what is stored of
a program with finite numbers, and of a value with finite numbers, is read back as it was; so the
program has the same listing, the same fingerprint and the same faults. And whatever program is read
from a JSON value with finite numbers is read back from what is stored of it. -/
theorem Program.survives_storage :
    (∀ j : Json, j.written.compact = j.compact) ∧
    (∀ p : Program, Finite p.numbers →
      (Program.ofJson? p.toJson.written).map (fun q => (q, q.listing, q.fingerprint, q.check)) =
        some (p, p.listing, p.fingerprint, p.check)) ∧
    (∀ v : Value, Finite v.numbers → Value.ofJson? v.toJson.written = some v) ∧
    ∀ (j : Json) (p : Program), Finite j.numbersIn → Program.ofJson? j = some p →
      Program.ofJson? p.toJson.written = some p := by
  have hread : ∀ p : Program, Finite p.numbers → Program.ofJson? p.toJson.written = some p := by
    intro p hp
    rw [Program.written_toJson hp, Program.ofJson?_toJson]
  refine ⟨compact_written, fun p hp => ?_, fun v hv => ?_, fun j p hj hp => ?_⟩
  · rw [hread p hp]
    rfl
  · rw [Value.written_toJson hv, Value.ofJson?_toJson]
  · exact hread p (Program.reads_numbers j p hj hp)

/-- A stored program: two instructions as pairs, a whole number for a number of seconds,
and a jump back. -/
def storedRounds : Json :=
  .arr [.arr [.str "sleep", .arr [.str "number", .int 2]],
    .obj [("data", .obj [("offset", .int (-1)), ("cond", .arr [.str "var", .str "done"])]),
      ("kind", .str "jump_ifn")],
    .obj [("kind", .str "ret"), ("data", .null)]]

/-- The program that is stored so. -/
def rounds : Program := ⟨[.sleep (.number (Float.ofInt 2)), .jumpIfNot (.var "done") (-1), .ret]⟩

/-- The numbers in it and in a position are finite, and all three are read back. -/
theorem rounds_survive_storage :
    (Finite rounds.numbers ∧ Finite (Value.position ⟨1.5, -2, 0⟩).numbers ∧
        Finite storedRounds.numbersIn ∧ Program.ofJson? storedRounds = some rounds) ∧
      (Program.ofJson? rounds.toJson.written).map
      (fun q => (q, q.listing, q.fingerprint, q.check)) =
        some (rounds, rounds.listing, rounds.fingerprint, rounds.check) ∧
      Value.ofJson? (Value.position ⟨1.5, -2, 0⟩).toJson.written = some (.position ⟨1.5, -2, 0⟩) ∧
      Program.ofJson? rounds.toJson.written = some rounds := by
  have hrounds : Finite rounds.numbers := by
    rintro x (_ | ⟨_, ⟨⟩⟩)
    decide
  have hposition : Finite (Value.position ⟨1.5, -2, 0⟩).numbers := by
    rintro x (_ | ⟨_, _ | ⟨_, _ | ⟨_, ⟨⟩⟩⟩⟩) <;> decide
  have hstored : Finite storedRounds.numbersIn := by
    rintro x (_ | ⟨_, _ | ⟨_, ⟨⟩⟩⟩) <;> decide
  have hread : Program.ofJson? storedRounds = some rounds := rfl
  obtain ⟨-, hprograms, hvalues, hagain⟩ := Program.survives_storage
  exact ⟨⟨hrounds, hposition, hstored, hread⟩, hprograms rounds hrounds, hvalues _ hposition,
    hagain storedRounds rounds hstored hread⟩

end BotScript
