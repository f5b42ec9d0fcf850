import BotScript.Json.Basic

/-!
# Records in JSON

A record is stored as an object, with its fields under their names in any order, or as an array,
with its fields in the order of their declaration. In an object, a name that is not declared is
ignored, and a declared one may not be repeated. In an array, fields with a default may be left out
at the end, and nothing may follow the last field.

A record that is one of several variants carries the name of its variant under a tag; in an array
the name comes first. A variant with a single content can also be stored as a pair of a name and a
content.

## Main definitions

* `Fields`: the fields of a record, named or listed.
* `Record`: reading a record field by field.
* `required`, `defaulted`, `nullable`: reading one field.
* `tagged?`, `pair?`: the name of a variant and what comes with it.
* `variant?`: reading a record that is one of several variants.
-/

namespace BotScript.Json

/-- The fields of a record: under their names, or in the order of their declaration. -/
inductive Fields where
  | named (fields : List (String × Json))
  | listed (items : List Json)

/-- The values stored under a name. -/
def valuesOf (name : String) (fields : List (String × Json)) : List Json :=
  (fields.filter (·.1 == name)).map (·.2)

/-- Reading a record: a listed field is gone once it has been read. -/
abbrev Record := StateT Fields Option

namespace Record

/-- What a field that is not there stands for: in a list, and under a name. -/
structure Missing (α : Type) where
  listed : Option α
  named : Option α

/-- Read one field. -/
def field {α : Type} (name : String) (read : Json → Option α) (missing : Missing α) : Record α :=
  fun
  | .named fields =>
    match valuesOf name fields with
    | [] => missing.named.map (·, .named fields)
    | [j] => (read j).map (·, .named fields)
    | _ => none
  | .listed [] => missing.listed.map (·, .listed [])
  | .listed (j :: rest) => (read j).map (·, .listed rest)

/-- Read a field that has to be there. -/
def required {α : Type} (name : String) (read : Json → Option α) : Record α :=
  field name read ⟨none, none⟩

/-- Read a field that has a default. -/
def defaulted {α : Type} (name : String) (read : Json → Option α) (value : α) : Record α :=
  field name read ⟨some value, some value⟩

/-- `null`, or what `read` accepts. -/
def orNull {α : Type} (read : Json → Option α) : Json → Option (Option α)
  | .null => some none
  | j => (read j).map some

/-- Read a field that may be missing from an object, or be `null`; in an array it has to
be there. -/
def nullable {α : Type} (name : String) (read : Json → Option α) : Record (Option α) :=
  field name (orNull read) ⟨none, some none⟩

/-- Run a reader on all fields of a record. -/
def all {α : Type} (r : Record α) (fields : Fields) : Option α :=
  match r fields with
  | some (a, .named _) => some a
  | some (a, .listed []) => some a
  | _ => none

end Record

/-- The fields of a value that stores a record. -/
def fields? : Json → Option Fields
  | .obj fields => some (.named fields)
  | .arr items => some (.listed items)
  | _ => none

/-- Read a record. -/
def record {α : Type} (r : Record α) (j : Json) : Option α := (fields? j).bind r.all

/-- The variant of a record, and its fields. -/
def tagged? (tag : String) : Json → Option (String × Fields)
  | .obj fields =>
    match valuesOf tag fields with
    | [.str name] => some (name, .named fields)
    | _ => none
  | .arr (.str name :: rest) => some (name, .listed rest)
  | _ => none

/-- Read a record that is one of several variants, each of which has its own fields. -/
def variant? {α : Type} (tag : String) (reader? : String → Option (Record α)) (j : Json) :
    Option α := do
  let (name, fields) ← tagged? tag j
  (← reader? name).all fields

/-- A name from a fixed list of names: on its own, or as the only key of an object, with `null`. -/
def name? : Json → Option String
  | .str name => some name
  | .obj [(name, .null)] => some name
  | _ => none

/-- A variant stored as a name and a content. In an object the content may be missing. -/
def pair? (tag content : String) : Json → Option (String × Option Json)
  | .obj fields =>
    match valuesOf tag fields, valuesOf content fields with
    | [t], [] => (name? t).map (·, none)
    | [t], [j] => (name? t).map (·, some j)
    | _, _ => none
  | .arr [t, j] => (name? t).map (·, some j)
  | _ => none

/-! ### Reading single values -/

/-- A string. -/
def string? : Json → Option String
  | .str s => some s
  | _ => none

/-- A truth value. -/
def bool? : Json → Option Bool
  | .bool b => some b
  | _ => none

/-- A number. -/
def number? : Json → Option Float
  | .int n => some (Float.ofInt n)
  | .real x => some x
  | _ => none

/-- A natural number of 64 bits, written as a whole number. -/
def natural? : Json → Option Nat
  | .int n => if 0 ≤ n ∧ n < UInt64.size then some n.toNat else none
  | _ => none

/-- An integer of 64 bits, written as a whole number. -/
def integer? : Json → Option Int
  | .int n => if Int64.minValue.toInt ≤ n ∧ n ≤ Int64.maxValue.toInt then some n else none
  | _ => none

/-- An array, item by item. -/
def list? {α : Type} (read : Json → Option α) : Json → Option (List α)
  | .arr items => items.mapM read
  | _ => none

end BotScript.Json
