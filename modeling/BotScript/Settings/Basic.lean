import BotScript.Number.Layout
import BotScript.Settings.Layer
import BotScript.Toml.Document

/-!
# Settings

The settings of a run, made of three layers: what is built in, a file, and the environment.

## Main definitions

* `Settings`: the settings.
* `SettingsError`: why there are none.
* `Settings.load`: the settings of a file and of the environment.
-/

namespace BotScript

/-- The settings: the milliseconds between two polls of a client and between two scans of the
watched tasks, and which messages are logged. -/
structure Settings where
  poll : UInt64
  tick : UInt64
  filter : String
  deriving DecidableEq, Repr

/-- Why there are no settings: they cannot be read, or they make no sense. -/
inductive SettingsError where
  | unreadable
  | notPositive (name : String)
  deriving DecidableEq, Repr

/-- The message of an error; what cannot be read has none of its own. -/
def SettingsError.message? : SettingsError → Option String
  | unreadable => none
  | notPositive name => some ("invalid configuration: " ++ name ++ " must be greater than zero")

/-- The file of settings: none is asked for, it is not there, or it has a content. -/
inductive SettingsFile where
  | none
  | missing
  | content (text : String)

namespace Settings

/-- The settings that are built in. -/
def builtIn : Settings := ⟨250, 10, "info"⟩

/-! ### Values -/

/-- A double as a word: the nearest whole number, a half going away from zero, or the
nearest word to it. -/
def wordOfReal (x : Float) : UInt64 :=
  match Number.roundToInt? x with
  | some n => UInt64.ofNat (min n.toNat greatest)
  | none => if 0 < x then UInt64.ofNat greatest else 0
where
  /-- The greatest word. -/
  greatest : Nat := UInt64.size - 1

/-- A value as a number of milliseconds. -/
def word? : Toml → Option UInt64
  | .int n => if 0 ≤ n then some (UInt64.ofNat n.toNat) else none
  | .real x => some (wordOfReal x)
  | .bool b => some (if b then 1 else 0)
  | .str s =>
    match s.toLower with
    | "true" | "on" | "yes" => some 1
    | "false" | "off" | "no" => some 0
    | _ => Number.readWord? s
  | .arr _ | .table _ => none

/-- A value as a text. -/
def text? : Toml → Option String
  | .str s => some s
  | .int n => some (toString n)
  | .real x => some (Number.text x)
  | .bool b => some (toString b)
  | .arr _ | .table _ => none

/-- The only field of a section. A section may be given as a list of its fields, and the
field may be left out. -/
def field? {α : Type} (read : Toml → Option α) (name : String) (fallback : α) :
    Option Toml → Option α
  | none | some (.arr []) => some fallback
  | some (.arr (v :: _)) => read v
  | some (.table entries) =>
    match entries.lookup name with
    | some v => read v
    | none => some fallback
  | some _ => none

/-- The settings in some entries. -/
def ofEntries? (entries : Toml.Entries) : Option Settings := do
  let poll ← field? word? "poll_interval_ms" builtIn.poll (entries.lookup "vm")
  let tick ← field? word? "tick_interval_ms" builtIn.tick (entries.lookup "supervisor")
  let filter ← field? text? "filter" builtIn.filter (entries.lookup "logging")
  return ⟨poll, tick, filter⟩

/-- The entries of settings. -/
def toEntries (s : Settings) : Toml.Entries :=
  [("vm", .table [("poll_interval_ms", .int s.poll.toNat)]),
    ("supervisor", .table [("tick_interval_ms", .int s.tick.toNat)]),
    ("logging", .table [("filter", .str s.filter)])]

/-! ### Loading -/

/-- Settings whose intervals are positive. -/
def checked (s : Settings) : Except SettingsError Settings :=
  if s.poll = 0 then .error (.notPositive "vm.poll_interval_ms")
  else if s.tick = 0 then .error (.notPositive "supervisor.tick_interval_ms")
  else .ok s

/-- The layer of a file, if it can be read. -/
def fileLayer? : SettingsFile → Option Layer
  | .none => some []
  | .missing => none
  | .content text => (Toml.parse? text).map Layer.ofFile

/-- The settings of a file and of the environment, over those that are built in. -/
def load (file : SettingsFile) (environment : List (String × String)) :
    Except SettingsError Settings :=
  let settings? := do
    let layer ← fileLayer? file
    ofEntries? ((builtIn.toEntries |> (Layer.lay · layer)) |>
      (Layer.lay · (.ofEnvironment environment)))
  match settings? with
  | some s => s.checked
  | none => .error .unreadable

end Settings

end BotScript
