import BotScript.Text.Unprintable

/-!
# Quoted text

Names and texts inside a listing or a message stand in double quotes, with everything that would be
invisible, or change its neighbours, written as an escape. A single quote stays as it is.

## Main definitions

* `escaped`: one character as it stands between the quotes.
* `quoted`: a text in quotes.
* `joinPath`: the parts of a path with slashes between them.
-/

namespace BotScript.Text

/-- A natural number in lower case hexadecimal, without leading zeros. -/
def hex (n : Nat) : String := String.ofList (Nat.toDigits 16 n)

/-- One character as it stands between the quotes. -/
def escaped (c : Char) : String :=
  if c = '"' then "\\\""
  else if c = '\\' then "\\\\"
  else if c = '\x00' then "\\0"
  else if c = '\t' then "\\t"
  else if c = '\n' then "\\n"
  else if c = '\r' then "\\r"
  else if isExtender c || isUnprintable c then "\\u\x7b" ++ hex c.toNat ++ "\x7d"
  else String.singleton c

/-- A text in double quotes. -/
def quoted (s : String) : String := "\"" ++ String.join (s.toList.map escaped) ++ "\""

/-- The parts of a path, with slashes between them. -/
def joinPath (parts : List String) : String := "/".intercalate parts

end BotScript.Text
