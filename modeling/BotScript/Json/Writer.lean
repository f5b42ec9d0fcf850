import BotScript.Json.Basic
import BotScript.Number.Layout

/-!
# Writing JSON text

Fields are written in the order of the value. Strings escape what the grammar demands
and nothing else.

## Main definitions

* `Json.compact`: the text without blanks.
* `Json.pretty`: the text with one item to a line.
-/

namespace BotScript.Json

/-- Numbers that are not whole numbers by type always show a point or an exponent, and an exponent
shows its sign. -/
def numbers : Number.Layout where
  positional := some (-5, 15)
  keepPoint := true
  tie := .toEven
  notANumber := "null"
  infinite _ := "null"

/-- One character as it stands in a JSON string. -/
def escapedChar (c : Char) : String :=
  if c = '"' then "\\\""
  else if c = '\\' then "\\\\"
  else if c = '\x08' then "\\b"
  else if c = '\x0c' then "\\f"
  else if c = '\n' then "\\n"
  else if c = '\r' then "\\r"
  else if c = '\t' then "\\t"
  else if c.toNat < 0x20 then
    "\\u00" ++ (if c.toNat < 0x10 then "0" else "") ++ String.ofList (Nat.toDigits 16 c.toNat)
  else String.singleton c

/-- A string with its quotes. -/
def stringText (s : String) : String := "\"" ++ String.join (s.toList.map escapedChar) ++ "\""

mutual

/-- The text without blanks. -/
def compact : Json → String
  | .null => "null"
  | .bool b => if b then "true" else "false"
  | .int n => toString n
  | .real x => numbers.write x
  | .str s => stringText s
  | .arr items => "[" ++ compactItems items ++ "]"
  | .obj fields => "\x7b" ++ compactFields fields ++ "\x7d"

/-- Items with commas between them. -/
def compactItems : List Json → String
  | [] => ""
  | j :: [] => compact j
  | j :: rest => compact j ++ "," ++ compactItems rest

/-- Fields with commas between them. -/
def compactFields : List (String × Json) → String
  | [] => ""
  | (key, j) :: [] => stringText key ++ ":" ++ compact j
  | (key, j) :: rest => stringText key ++ ":" ++ compact j ++ "," ++ compactFields rest

end

/-- The beginning of a line at a level: two spaces for each. -/
def indent (level : Nat) : String := "\n" ++ String.ofList (List.replicate (2 * level) ' ')

mutual

/-- The text with one item to a line, at a level. -/
def prettyAt (level : Nat) : Json → String
  | .arr [] => "[]"
  | .arr items => "[" ++ prettyItems (level + 1) items ++ indent level ++ "]"
  | .obj [] => "\x7b\x7d"
  | .obj fields => "\x7b" ++ prettyFields (level + 1) fields ++ indent level ++ "\x7d"
  | .null => "null"
  | .bool b => if b then "true" else "false"
  | .int n => toString n
  | .real x => numbers.write x
  | .str s => stringText s

/-- Items, each on a line of its own. -/
def prettyItems (level : Nat) : List Json → String
  | [] => ""
  | j :: [] => indent level ++ prettyAt level j
  | j :: rest => indent level ++ prettyAt level j ++ "," ++ prettyItems level rest

/-- Fields, each on a line of its own. -/
def prettyFields (level : Nat) : List (String × Json) → String
  | [] => ""
  | (key, j) :: [] => indent level ++ stringText key ++ ": " ++ prettyAt level j
  | (key, j) :: rest =>
    indent level ++ stringText key ++ ": " ++ prettyAt level j ++ "," ++ prettyFields level rest

end

/-- The text with one item to a line. -/
def pretty (j : Json) : String := prettyAt 0 j

end BotScript.Json
