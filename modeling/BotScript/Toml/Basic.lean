/-!
# TOML values

The format of settings files.

## Main definitions

* `Toml`: a value.
* `Toml.Entries`: the entries of a table, by key.
-/

namespace BotScript

/-- A value of a settings file. Dates and times are kept as their text. -/
inductive Toml where
  | bool (b : Bool)
  | int (n : Int)
  | real (x : Float)
  | str (s : String)
  | arr (items : List Toml)
  | table (entries : List (String × Toml))

/-- The entries of a table, by key. -/
abbrev Toml.Entries := List (String × Toml)

end BotScript
