import BotScript.Number.Reading
import BotScript.Toml.Basic

/-!
# Layers of settings

Settings come in layers, each of which is laid over those below it key by key. Keys are compared
without regard to case.

## Main definitions

* `Layer.lay`: lay a layer over entries.
* `Layer.ofEnvironment`: the layer of the environment.
-/

namespace BotScript

/-- Give a key a new value, in its place if it has one. -/
def Toml.Entries.put (entries : Toml.Entries) (key : String) (v : Toml) : Toml.Entries :=
  if entries.any (·.1 == key) then
    entries.map fun (k, old) => if k == key then (k, v) else (k, old)
  else entries ++ [(key, v)]

/-- A layer of settings: values with their paths. -/
abbrev Layer := List (List String × Toml)

namespace Layer

/-- A name in small letters. The kelvin sign is the only character beyond the Latin capitals whose
small letter may stand in the name of a setting. -/
def lowered (name : String) : String := name.map fun c => if c == '\u212a' then 'k' else c.toLower

mutual

/-- What a key has when a value is laid over what it had. Tables are joined; anything
else is replaced. -/
def cover (old : Option Toml) : Toml → Toml
  | .table entries =>
    match old with
    | some (.table under) => .table (coverAll under entries)
    | some v => if entries.isEmpty then v else .table (coverAll [] entries)
    | none => .table (coverAll [] entries)
  | v => v

/-- Lay entries over those of a table. -/
def coverAll (under : Toml.Entries) : List (String × Toml) → Toml.Entries
  | [] => under
  | (key, v) :: rest =>
    let key := lowered key
    coverAll (under.put key (cover (under.lookup key) v)) rest

end

/-- Lay a value over the entries of a table, at a path. What stands in its way becomes a table. -/
def place (v : Toml) : List String → Toml.Entries → Toml.Entries
  | [], under => under
  | [key], under => coverAll under [(key, v)]
  | key :: path, under =>
    let key := lowered key
    let inner := match under.lookup key with
      | some (.table entries) => entries
      | _ => []
    under.put key (.table (place v path inner))

/-- Lay a layer over entries. -/
def lay (under : Toml.Entries) (layer : Layer) : Toml.Entries :=
  layer.foldl (fun under (path, v) => place v path under) under

/-! ### Paths -/

/-- Whether a character may stand in a part of a path. -/
def isPathChar (c : Char) : Bool :=
  c.isAlphanum || c == ' ' || c == '_' || c == '-'

/-- The path that a key stands for: its parts between points, if there is something in each. -/
def pathOf (key : String) : List String :=
  let parts := key.splitOn "."
  if parts.all fun part => !part.isEmpty && part.all isPathChar then parts else [key]

/-- The layer of a file. -/
def ofFile (entries : Toml.Entries) : Layer := entries.map fun (key, v) => (pathOf key, v)

/-! ### The environment -/

/-- What the names of variables begin with that are settings, without regard to case. -/
def namePrefix : String := "deimos__"

/-- The value of a variable: a truth value, a whole number, a decimal, or else its text. -/
def valueOf (s : String) : Toml :=
  match s.toLower with
  | "true" => .bool true
  | "false" => .bool false
  | _ =>
    match Number.readInteger? s with
    | some n => .int n
    | none =>
      match Number.readReal? s with
      | some x => .real x
      | none => .str s

/-- The setting of a variable, if it is one. Two underscores divide the parts of its path. -/
def ofVariable? (name value : String) : Option (List String × Toml) :=
  let name := lowered name
  if namePrefix.isPrefixOf name then
    let key := ".".intercalate ((name.drop namePrefix.length).toString.splitOn "__")
    some (pathOf key, valueOf value)
  else none

/-- The layer of the environment. -/
def ofEnvironment (vars : List (String × String)) : Layer :=
  vars.filterMap fun (name, value) => ofVariable? name value

end Layer

end BotScript
