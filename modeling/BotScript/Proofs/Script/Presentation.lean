import Mathlib.Data.List.Nodup
import Mathlib.Logic.Relation
import BotScript.Proofs.Script.Stored

/-!
# Presentation of stored scripts

The same script can be stored in many ways: the fields of an object can stand in any order, among
others that are not declared for it, and a field that has its default can be left out. Such
differences, however many and however deep inside, do not matter to the reader.

Which fields are declared for an object, and what they default to, is laid down here apart from the
readers, and edits go by that alone. What is stored is a value here, not a text: whether numbers
outlive being written down is another matter.

## Main definitions

* `Form`: what a value in a stored script stands for.
* `Form.slots`: the fields declared for an object.
* `Form.Edit`: one change of presentation.

## Main results

* `Form.read_alike`: the reader takes nothing but the declared fields.
* `Form.Edit.read_eq`: an edit does not matter to the reader.
* `Script.read_of_edits`: a script is read back however its stored form is presented.
-/

namespace BotScript

open Json Json.Record

/-! ### Forms -/

/-- What a value in a stored script stands for. -/
inductive Form where
  | text
  | number
  | truth
  | natural
  /-- A name from a fixed list of names. -/
  | name
  | operator
  | selector
  | predicate
  | expr
  | token
  | output
  | destination
  | waitKind
  | commandKind
  | command
  | statement
  | items (f : Form)
  /-- Of the given form, or `null`. -/
  | maybe (f : Form)

/-- What the values of a form are read as. -/
def Form.Value : Form → Type
  | text | name => String
  | number => Float
  | truth => Bool
  | natural => Nat
  | operator => UnaryOp
  | selector => Selector
  | predicate => Predicate
  | expr => Expr
  | token => LogToken
  | output => LogOutput
  | destination => Destination
  | waitKind => WaitKind
  | commandKind => CommandKind
  | command => Command
  | statement => Statement
  | items f => List f.Value
  | maybe f => Option f.Value

/-- How the values of a form are read. -/
def Form.read : (f : Form) → Json → Option f.Value
  | text => string?
  | number => number?
  | truth => bool?
  | natural => natural?
  | name => name?
  | operator => UnaryOp.ofJson?
  | selector => Selector.ofJson?
  | predicate => Predicate.ofJson?
  | expr => Expr.ofJson?
  | token => LogToken.ofJson?
  | output => LogOutput.ofJson?
  | destination => Destination.ofJson?
  | waitKind => WaitKind.ofJson?
  | commandKind => CommandKind.ofJson?
  | command => Command.ofJson?
  | statement => Statement.ofJson?
  | items f => list? f.read
  | maybe f => orNull f.read

/-! ### Declared fields -/

/-- A field that is declared for an object. Without a default it has to be there. -/
structure Slot where
  name : String
  form : Form
  default : Option form.Value

/-- The fields of a selector. -/
def Selector.slots : List Slot :=
  [⟨"mass", .truth, some false⟩, ⟨"inverted", .truth, some false⟩,
    ⟨"player_nums", .items .natural, some ([] : List Nat)⟩]

/-- The fields of a predicate, given its name. -/
def Predicate.slots : String → List Slot
  | "window_visible" | "in_zone" => [⟨"path", .items .text, none⟩]
  | "same_zone" => [⟨"a", .natural, none⟩, ⟨"b", .natural, none⟩]
  | _ => []

/-- The fields of an expression, given its name. -/
def Expr.slots : String → List Slot
  | "number" => [⟨"value", .number, none⟩]
  | "string" => [⟨"value", .text, none⟩]
  | "key" => [⟨"key", .text, none⟩]
  | "xyz" => [⟨"x", .expr, none⟩, ⟨"y", .expr, none⟩, ⟨"z", .expr, none⟩]
  | "unary" => [⟨"op", .operator, none⟩, ⟨"expr", .expr, none⟩]
  | "command" => [⟨"selector", .selector, some Selector.all⟩, ⟨"predicate", .predicate, none⟩]
  | "var" => [⟨"ident", .text, none⟩]
  | _ => []

/-- The fields of a token. -/
def LogToken.slots : List Slot := [⟨"t", .name, none⟩, ⟨"v", .text, none⟩]

/-- The fields of a log output, given its name. -/
def LogOutput.slots : String → List Slot
  | "literal" => [⟨"tokens", .items .token, none⟩]
  | "window" => [⟨"path", .items .text, none⟩]
  | _ => []

/-- The fields of a destination, given its name. -/
def Destination.slots : String → List Slot
  | "position" => [⟨"position", .expr, none⟩]
  | "entity_literal" | "entity_vague" | "friend_name" => [⟨"name", .text, none⟩]
  | _ => []

/-- The fields of what is waited for, given its name. -/
def WaitKind.slots : String → List Slot
  | "window" => [⟨"path", .items .text, none⟩]
  | _ => []

/-- The fields of what a command does, given its name. -/
def CommandKind.slots : String → List Slot
  | "sleep" => [⟨"duration", .expr, none⟩]
  | "log" => [⟨"output", .output, none⟩]
  | "load_playstyle" => [⟨"playstyle", .text, none⟩]
  | "expr" => [⟨"predicate", .predicate, none⟩]
  | "sendkey" => [⟨"key", .expr, none⟩, ⟨"seconds", .maybe .expr, some (none : Option Expr)⟩]
  | "click" => [⟨"x", .expr, none⟩, ⟨"y", .expr, none⟩]
  | "teleport" => [⟨"target", .destination, none⟩]
  | "goto" => [⟨"target", .expr, none⟩]
  | "tozone" => [⟨"path", .items .text, none⟩]
  | "waitfor" => [⟨"kind", .waitKind, none⟩, ⟨"completion", .truth, some false⟩]
  | _ => []

/-- The fields of a command. -/
def Command.slots : List Slot :=
  [⟨"selector", .selector, some Selector.all⟩, ⟨"kind", .commandKind, none⟩]

/-- The fields of a statement, given its name. -/
def Statement.slots : String → List Slot
  | "list" => [⟨"stmts", .items .statement, none⟩]
  | "command" => [⟨"command", .command, none⟩]
  | "block_def" => [⟨"ident", .text, none⟩, ⟨"body", .items .statement, none⟩]
  | "if" => [⟨"expr", .expr, none⟩, ⟨"branch_true", .items .statement, none⟩,
      ⟨"branch_false", .items .statement, some ([] : List Statement)⟩]
  | "while" | "until" => [⟨"expr", .expr, none⟩, ⟨"body", .items .statement, none⟩]
  | "loop" => [⟨"body", .items .statement, none⟩]
  | "call" | "dec_var" => [⟨"ident", .text, none⟩]
  | "set_var" => [⟨"ident", .text, none⟩, ⟨"expr", .expr, none⟩]
  | _ => []

/-- The fields of an object that is one of several variants: the tag, and those of the
variant it names. -/
def taggedSlots (tag : String) (variants : String → List Slot) (fields : List (String × Json)) :
    List Slot :=
  ⟨tag, .text, none⟩ :: (fieldAt tag string? none fields).elim [] variants

/-- The fields declared for an object of a form. There are none to speak of where a value of the
form is not an object with fields. -/
def Form.slots (fields : List (String × Json)) : Form → Option (List Slot)
  | text | number | truth | natural | name | operator | items _ => none
  | selector => some Selector.slots
  | predicate => some (taggedSlots "type" Predicate.slots fields)
  | expr => some (taggedSlots "type" Expr.slots fields)
  | token => some LogToken.slots
  | output => some (taggedSlots "kind" LogOutput.slots fields)
  | destination => some (taggedSlots "type" Destination.slots fields)
  | waitKind => some (taggedSlots "type" WaitKind.slots fields)
  | commandKind => some (taggedSlots "type" CommandKind.slots fields)
  | command => some Command.slots
  | statement => some (taggedSlots "type" Statement.slots fields)
  | maybe f => f.slots fields

/-! ### Objects with the same declared fields -/

/-- What stands for a declared field. -/
def Slot.view (s : Slot) (fields : List (String × Json)) : Option s.form.Value :=
  fieldAt s.name s.form.read s.default fields

/-- Two objects have the same in some declared fields. -/
def Alike (slots : List Slot) (fields fields' : List (String × Json)) : Prop :=
  ∀ s ∈ slots, s.view fields = s.view fields'

section Readers

variable {slots : List Slot} {fields fields' : List (String × Json)}

/-- A declared field is read alike. -/
theorem related_slot {s : Slot} (h : s ∈ slots) :
    Related (Named (Alike slots)) (field s.name s.form.read ⟨s.default, s.default⟩)
      (field s.name s.form.read ⟨s.default, s.default⟩) :=
  related_field_named fun _ _ halike => halike s h

theorem Predicate.reader?_alike (name : String) :
    Option.Rel (Related (Named (Alike (Predicate.slots name)))) (Predicate.reader? name)
      (Predicate.reader? name) := by
  unfold Predicate.reader?
  split
  · exact .some ((related_slot (.head _)).map _)
  · exact .some ((related_slot (.head _)).map _)
  · refine .some ((related_slot (.head _)).bind fun a => ?_)
    exact (related_slot (.tail _ (.head _))).bind fun b => related_pure _
  · exact .some (related_pure _)
  · exact .some (related_pure _)
  · exact .none

theorem Expr.reader?_alike (name : String) :
    Option.Rel (Related (Named (Alike (Expr.slots name)))) (Expr.reader? Expr.ofJson? name)
      (Expr.reader? Expr.ofJson? name) := by
  unfold Expr.reader?
  split
  · exact .some ((related_slot (.head _)).map _)
  · exact .some ((related_slot (.head _)).map _)
  · exact .some ((related_slot (.head _)).map _)
  · refine .some ((related_slot (.head _)).bind fun x => ?_)
    refine (related_slot (.tail _ (.head _))).bind fun y => ?_
    exact (related_slot (.tail _ (.tail _ (.head _)))).bind fun z => related_pure _
  · refine .some ((related_slot (.head _)).bind fun op => ?_)
    exact (related_slot (.tail _ (.head _))).bind fun e => related_pure _
  · refine .some ((related_slot (.head _)).bind fun who => ?_)
    exact (related_slot (.tail _ (.head _))).bind fun p => related_pure _
  · exact .some ((related_slot (.head _)).map _)
  · exact .none

theorem LogOutput.reader?_alike (name : String) :
    Option.Rel (Related (Named (Alike (LogOutput.slots name)))) (LogOutput.reader? name)
      (LogOutput.reader? name) := by
  unfold LogOutput.reader?
  split
  · exact .some ((related_slot (.head _)).map _)
  · exact .some ((related_slot (.head _)).map _)
  · exact .none

theorem Destination.reader?_alike (name : String) :
    Option.Rel (Related (Named (Alike (Destination.slots name)))) (Destination.reader? name)
      (Destination.reader? name) := by
  unfold Destination.reader?
  split
  · exact .some ((related_slot (.head _)).map _)
  · exact .some ((related_slot (.head _)).map _)
  · exact .some ((related_slot (.head _)).map _)
  · exact .some (related_pure _)
  · exact .some (related_pure _)
  · exact .some (related_pure _)
  · exact .some ((related_slot (.head _)).map _)
  · exact .none

theorem WaitKind.reader?_alike (name : String) :
    Option.Rel (Related (Named (Alike (WaitKind.slots name)))) (WaitKind.reader? name)
      (WaitKind.reader? name) := by
  unfold WaitKind.reader?
  split
  · exact .some (related_pure _)
  · exact .some (related_pure _)
  · exact .some (related_pure _)
  · exact .some (related_pure _)
  · exact .some ((related_slot (.head _)).map _)
  · exact .none

/-- The reader of actions, as commands use it. -/
theorem Action.reader?_alike (name : String) :
    Option.Rel (Related (Named (Alike (CommandKind.slots name))))
      (Action.reader? (defaulted "seconds" (orNull Expr.ofJson?) none) name)
      (Action.reader? (defaulted "seconds" (orNull Expr.ofJson?) none) name) := by
  unfold Action.reader?
  split
  · refine .some ((related_slot (.head _)).bind fun key => ?_)
    exact (related_slot (.tail _ (.head _))).bind fun seconds => related_pure _
  · refine .some ((related_slot (.head _)).bind fun x => ?_)
    exact (related_slot (.tail _ (.head _))).bind fun y => related_pure _
  · exact .some ((related_slot (.head _)).map _)
  · exact .some ((related_slot (.head _)).map _)
  · exact .some (related_pure _)
  · exact .some (related_pure _)
  · exact .some (related_pure _)
  · exact .some ((related_slot (.head _)).map _)
  · refine .some ((related_slot (.head _)).bind fun kind => ?_)
    exact (related_slot (.tail _ (.head _))).bind fun completion => related_pure _
  · exact .none

theorem CommandKind.reader?_alike (name : String) :
    Option.Rel (Related (Named (Alike (CommandKind.slots name)))) (CommandKind.reader? name)
      (CommandKind.reader? name) := by
  unfold CommandKind.reader?
  split
  · exact .some (related_pure _)
  · exact .some ((related_slot (.head _)).map _)
  · exact .some ((related_slot (.head _)).map _)
  · exact .some ((related_slot (.head _)).map _)
  · exact .some ((related_slot (.head _)).map _)
  · -- Every other name is that of an action, or of nothing.
    have haction := Action.reader?_alike name
    generalize Action.reader? (defaulted "seconds" (orNull Expr.ofJson?) none) name = r? at haction
    cases r? with
    | none => exact .none
    | some r =>
      cases haction with
      | some hrelated => exact .some (hrelated.map _)

theorem Statement.reader?_alike (name : String) :
    Option.Rel (Related (Named (Alike (Statement.slots name))))
      (Statement.reader? (list? Statement.ofJson?) name)
      (Statement.reader? (list? Statement.ofJson?) name) := by
  unfold Statement.reader?
  split
  · exact .some ((related_slot (.head _)).map _)
  · exact .some ((related_slot (.head _)).map _)
  · refine .some ((related_slot (.head _)).bind fun name => ?_)
    exact (related_slot (.tail _ (.head _))).bind fun body => related_pure _
  · refine .some ((related_slot (.head _)).bind fun test => ?_)
    refine (related_slot (.tail _ (.head _))).bind fun yes => ?_
    exact (related_slot (.tail _ (.tail _ (.head _)))).bind fun no => related_pure _
  · refine .some ((related_slot (.head _)).bind fun test => ?_)
    exact (related_slot (.tail _ (.head _))).bind fun body => related_pure _
  · refine .some ((related_slot (.head _)).bind fun test => ?_)
    exact (related_slot (.tail _ (.head _))).bind fun body => related_pure _
  · exact .some ((related_slot (.head _)).map _)
  · exact .some ((related_slot (.head _)).map _)
  · refine .some ((related_slot (.head _)).bind fun name => ?_)
    exact (related_slot (.tail _ (.head _))).bind fun value => related_pure _
  · exact .some ((related_slot (.head _)).map _)
  · exact .none

/-- A token is read from the name of its kind and its text. -/
theorem LogToken.ofJson?_obj (fields : List (String × Json)) :
    LogToken.ofJson? (.obj fields) = (fieldAt "t" name? none fields).bind fun kind =>
      if kind = "string" then (fieldAt "v" string? none fields).map .string
      else if kind = "ident" then (fieldAt "v" string? none fields).map .word
      else none := by
  simp only [LogToken.ofJson?, pair?, fieldAt]
  rcases valuesOf "t" fields with _ | ⟨t, _ | ⟨t', ts⟩⟩
  · rfl
  · cases hname : name? t with
    | none => rcases valuesOf "v" fields with _ | ⟨v, _ | ⟨v', vs⟩⟩ <;> simp [hname]
    | some kind =>
      -- The text is read only once the kind is known to be one of the two.
      by_cases hstring : kind = "string"
      · subst hstring
        rcases valuesOf "v" fields with _ | ⟨v, _ | ⟨v', vs⟩⟩
        · simp [hname]
        · cases hv : string? v <;> simp [hname, hv]
        · simp [hname]
      · by_cases hident : kind = "ident"
        · subst hident
          rcases valuesOf "v" fields with _ | ⟨v, _ | ⟨v', vs⟩⟩
          · simp [hname]
          · cases hv : string? v <;> simp [hname, hv]
          · simp [hname]
        · rcases valuesOf "v" fields with _ | ⟨v, _ | ⟨v', vs⟩⟩ <;> simp [hname, hstring, hident]
  · simp

/-- Objects of several variants are read alike if those of each variant are. -/
theorem variant?_alike {α : Type} {tag : String} {variants : String → List Slot}
    {reader? : String → Option (Record α)}
    (hreader : ∀ name, Option.Rel (Related (Named (Alike (variants name)))) (reader? name)
      (reader? name))
    (h : Alike (taggedSlots tag variants fields) fields fields') :
    variant? tag reader? (.obj fields) = variant? tag reader? (.obj fields') := by
  refine variant?_congr (h ⟨tag, .text, none⟩ (.head _)) (fun name hname s hs => ?_) hreader
  have hmem : s ∈ taggedSlots tag variants fields := by
    rw [taggedSlots, hname]
    exact .tail _ hs
  exact h s hmem

end Readers

namespace Form

variable {f : Form} {slots : List Slot} {fields fields' : List (String × Json)}

/-- Of an object, the reader takes nothing but the fields that are declared for it. -/
theorem read_alike (hslots : f.slots fields = some slots) (h : Alike slots fields fields') :
    f.read (.obj fields) = f.read (.obj fields') := by
  induction f with
  | text | number | truth | natural | name | operator | items _ => cases hslots
  | selector =>
    cases hslots
    refine record_congr h ((related_slot (.head _)).bind fun everyone => ?_)
    refine (related_slot (.tail _ (.head _))).bind fun inverted => ?_
    exact (related_slot (.tail _ (.tail _ (.head _)))).bind fun players => related_pure _
  | token =>
    cases hslots
    have hname : fieldAt "t" name? none fields = fieldAt "t" name? none fields' := h _ (.head _)
    have htext : fieldAt "v" string? none fields = fieldAt "v" string? none fields' :=
      h _ (.tail _ (.head _))
    change LogToken.ofJson? _ = LogToken.ofJson? _
    rw [LogToken.ofJson?_obj, LogToken.ofJson?_obj, hname, htext]
  | command =>
    cases hslots
    refine record_congr h ((related_slot (.head _)).bind fun who => ?_)
    exact (related_slot (.tail _ (.head _))).bind fun kind => related_pure _
  | predicate =>
    cases hslots
    exact variant?_alike Predicate.reader?_alike h
  | expr =>
    cases hslots
    -- One layer is enough: below it, both objects are read by the same reader.
    simp only [read, Expr.ofJson?_eq]
    exact variant?_alike Expr.reader?_alike h
  | output =>
    cases hslots
    exact variant?_alike LogOutput.reader?_alike h
  | destination =>
    cases hslots
    exact variant?_alike Destination.reader?_alike h
  | waitKind =>
    cases hslots
    exact variant?_alike WaitKind.reader?_alike h
  | commandKind =>
    cases hslots
    exact variant?_alike CommandKind.reader?_alike h
  | statement =>
    cases hslots
    simp only [read, Statement.ofJson?_eq]
    exact variant?_alike Statement.reader?_alike h
  | maybe f ih => exact congrArg (Option.map some) (ih hslots)

/-! ### Names of declared fields -/

theorem nodup_taggedSlots {tag : String} {variants : String → List Slot}
    (h : ∀ name, (tag :: (variants name).map (·.name)).Nodup) (fields : List (String × Json)) :
    ((taggedSlots tag variants fields).map (·.name)).Nodup := by
  rw [taggedSlots, List.map_cons]
  cases fieldAt tag string? none fields with
  | none => exact List.nodup_singleton tag
  | some name => exact h name

/-- The declared fields of an object have different names. -/
theorem nodup_slots (hslots : f.slots fields = some slots) : (slots.map (·.name)).Nodup := by
  induction f with
  | text | number | truth | natural | name | operator | items _ => cases hslots
  | selector | token | command =>
    cases hslots
    decide
  | predicate | expr | output | destination | waitKind | commandKind | statement =>
    cases hslots
    refine nodup_taggedSlots (fun name => ?_) fields
    delta Predicate.slots Expr.slots LogOutput.slots Destination.slots WaitKind.slots
      CommandKind.slots Statement.slots
    split <;> decide
  | maybe f ih => exact ih hslots

/-- A declared field is known by its name. -/
theorem eq_of_name_eq (hslots : f.slots fields = some slots) {s t : Slot} (hs : s ∈ slots)
    (ht : t ∈ slots) (h : s.name = t.name) : s = t :=
  List.inj_on_of_nodup_map (nodup_slots hslots) hs ht h

/-! ### Edits -/

/-- One change of presentation to a value of some form: at the value itself, or at a value in it. -/
inductive Edit : Form → Json → Json → Prop
  /-- The fields of an object are put in another order. -/
  | permute {f : Form} {fields fields' : List (String × Json)} {slots : List Slot}
      (hslots : f.slots fields = some slots) (h : fields.Perm fields') :
      Edit f (.obj fields) (.obj fields')
  /-- A field is added that is not declared for the object. -/
  | add {f : Form} {before after : List (String × Json)} {slots : List Slot} {key : String}
      (j : Json)
      (hslots : f.slots (before ++ after) = some slots) (hkey : ∀ s ∈ slots, s.name ≠ key) :
      Edit f (.obj (before ++ after)) (.obj (before ++ (key, j) :: after))
  /-- A field is left out that has its default. -/
  | leaveOut {f : Form} {before after : List (String × Json)} {slots : List Slot} {s : Slot}
      {j : Json} {a : s.form.Value} (hslots : f.slots (before ++ (s.name, j) :: after) = some slots)
      (hs : s ∈ slots) (hdefault : s.default = some a) (hread : s.form.read j = some a)
      (honce : valuesOf s.name (before ++ after) = []) :
      Edit f (.obj (before ++ (s.name, j) :: after)) (.obj (before ++ after))
  /-- A change to the value of a declared field. -/
  | field {f : Form} {before after : List (String × Json)} {slots : List Slot} {s : Slot}
      {j j' : Json}
      (hslots : f.slots (before ++ (s.name, j) :: after) = some slots) (hs : s ∈ slots)
      (h : Edit s.form j j') :
      Edit f (.obj (before ++ (s.name, j) :: after)) (.obj (before ++ (s.name, j') :: after))
  /-- A change to an item of an array. -/
  | item {f : Form} {before after : List Json} {j j' : Json} (h : Edit f j j') :
      Edit (.items f) (.arr (before ++ j :: after)) (.arr (before ++ j' :: after))

/-- What stands under other names does not matter to a field. -/
theorem view_of_ne {s : Slot} {key : String} (h : key ≠ s.name) (j : Json)
    (before after : List (String × Json)) :
    s.view (before ++ (key, j) :: after) = s.view (before ++ after) := by
  simp [Slot.view, fieldAt, valuesOf_append, h]

/-- Only what its value is read as matters to a field. -/
theorem view_replace {s : Slot} {j j' : Json} (h : s.form.read j = s.form.read j')
    (before after : List (String × Json)) :
    s.view (before ++ (s.name, j) :: after) = s.view (before ++ (s.name, j') :: after) := by
  simp only [Slot.view, fieldAt, valuesOf_append, valuesOf_cons, if_true]
  -- With another value under the same name, nothing can be read in either case.
  rcases valuesOf s.name before with _ | ⟨k, _ | ⟨k', ks⟩⟩ <;>
    rcases valuesOf s.name after with _ | ⟨i, is⟩ <;> simp [h]

/-- A field that has its default stands for the same where it is left out. -/
theorem view_leaveOut {s : Slot} {j : Json} {a : s.form.Value} (hdefault : s.default = some a)
    (hread : s.form.read j = some a) {before after : List (String × Json)}
    (honce : valuesOf s.name (before ++ after) = []) :
    s.view (before ++ (s.name, j) :: after) = s.view (before ++ after) := by
  rw [valuesOf_append, List.append_eq_nil_iff] at honce
  simp [Slot.view, fieldAt, valuesOf_append, honce, hread, hdefault]

/-- An edit does not matter to the reader: by the declared fields of the objects where it takes
place, and so on outwards. -/
theorem Edit.read_eq {j j' : Json} (h : Edit f j j') : f.read j = f.read j' := by
  induction h with
  | permute hslots hperm => exact read_alike hslots fun s _ => fieldAt_perm hperm _ _ _
  | add j hslots hkey =>
    exact read_alike hslots fun s hs => (view_of_ne (hkey s hs).symm j _ _).symm
  | @leaveOut f before after slots s j a hslots hs hdefault hread honce =>
    refine read_alike hslots fun t ht => ?_
    -- The edit concerns the one declared field of this name.
    by_cases hname : s.name = t.name
    · obtain rfl := eq_of_name_eq hslots hs ht hname
      exact view_leaveOut hdefault hread honce
    · exact view_of_ne hname j before after
  | @field f before after slots s j j' hslots hs _ ih =>
    refine read_alike hslots fun t ht => ?_
    by_cases hname : s.name = t.name
    · obtain rfl := eq_of_name_eq hslots hs ht hname
      exact view_replace ih before after
    · rw [view_of_ne hname, view_of_ne hname]
  | item _ ih => exact list?_replace ih _ _

end Form

/-- A script is read back from its stored form, and from whatever comes of it by putting fields in
another order, adding fields that are not declared and leaving out fields that have their defaults,
in any object and any number of times. -/
theorem Script.read_of_edits (s : Script) :
    Script.ofJson? s.toJson = some s ∧
      ∀ j, Relation.ReflTransGen (Form.Edit (.items .statement)) s.toJson j →
      Script.ofJson? j = some s := by
  refine ⟨Script.ofJson?_toJson s, fun j hedits => ?_⟩
  induction hedits with
  | refl => exact Script.ofJson?_toJson s
  | tail _ hedit ih => exact hedit.read_eq.symm.trans ih

/-- See whether some client is in battle. -/
def lookout : Script := [.branch (.ask .all .inBattle) [] []]

/-- The same without defaults, in another order, and with a note. -/
def lookoutNoted : Json :=
  .arr [.obj [("branch_true", .arr []), ("type", .str "if"),
    ("expr", .obj [("type", .str "command"),
      ("predicate", .obj [("note", .str "any of them"), ("type", .str "in_battle")])])]]

theorem lookout_edits :
    Relation.ReflTransGen (Form.Edit (.items .statement)) lookout.toJson lookoutNoted := by
  -- The empty branch is left out, then the selector of the question.
  apply Relation.ReflTransGen.head (@Form.Edit.item .statement [] [] _ _
    (@Form.Edit.leaveOut .statement [_, _, _] [] _
      ⟨"branch_false", .items .statement, some ([] : List Statement)⟩ (.arr [])
      ([] : List Statement)
      rfl (.tail _ (.tail _ (.tail _ (.head _)))) rfl rfl rfl))
  apply Relation.ReflTransGen.head (@Form.Edit.item .statement [] [] _ _
    (@Form.Edit.field .statement [_] [_] _ ⟨"expr", .expr, none⟩ _ _ rfl (.tail _ (.head _))
      (@Form.Edit.leaveOut .expr [_] [_] _ ⟨"selector", .selector, some Selector.all⟩
        Selector.all.toJson
        Selector.all rfl (.tail _ (.head _)) rfl (Selector.ofJson?_toJson .all) rfl)))
  -- The note is put next to what is asked.
  apply Relation.ReflTransGen.head (@Form.Edit.item .statement [] [] _ _
    (@Form.Edit.field .statement [_] [_] _ ⟨"expr", .expr, none⟩ _ _ rfl (.tail _ (.head _))
      (@Form.Edit.field .expr [_] [] _ ⟨"predicate", .predicate, none⟩ _ _ rfl
        (.tail _ (.tail _ (.head _)))
        (@Form.Edit.add .predicate [] [_] _ "note" (.str "any of them") rfl (by decide)))))
  exact .single (@Form.Edit.item .statement [] [] _ _
    (.permute rfl (@List.perm_append_comm _ [_, _] [_])))

/-- All of it does not matter to the reader. -/
theorem lookout_read_back :
    Relation.ReflTransGen (Form.Edit (.items .statement)) lookout.toJson lookoutNoted ∧
      Script.ofJson? lookoutNoted = some lookout :=
  ⟨lookout_edits, (Script.read_of_edits lookout).2 lookoutNoted lookout_edits⟩

end BotScript
