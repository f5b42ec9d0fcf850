import BotScript.Json.Numeral

/-!
# Reading JSON text

The text is cut into tokens, and the tokens are taken one by one by a machine with a stack of open
arrays and objects. The grammar is the strict one: no comments, no comma before a closing bracket,
no control characters in strings, surrogate escapes only in pairs, nothing after the value.

## Main definitions

* `Token`: a piece of JSON text.
* `tokens?`: the tokens of a text.
* `Reading`: where the machine stands.
* `Json.parse?`: the value of a text, with a limit on the nesting of arrays and objects.
-/

namespace BotScript.Json

open Number

/-- A piece of JSON text. A `value` is a string, a number or one of the three words. -/
inductive Token where
  | openArray
  | closeArray
  | openObject
  | closeObject
  | colon
  | comma
  | value (j : Json)

/-- The code unit of four hexadecimal digits. -/
def unit? (a b c d : Char) : Option Nat := do
  return 4096 * (← hexValue? a) + 256 * (← hexValue? b) + 16 * (← hexValue? c) + (← hexValue? d)

/-- The character after a backslash that stands for a single character. -/
def shortEscape? : Char → Option Char
  | '"' => some '"'
  | '\\' => some '\\'
  | '/' => some '/'
  | 'b' => some '\x08'
  | 'f' => some '\x0c'
  | 'n' => some '\n'
  | 'r' => some '\r'
  | 't' => some '\t'
  | _ => none

/-- The string up to its closing quote, and the text after it; `read` holds the characters so far,
the last one first. -/
def scanString (read : List Char) : List Char → Option (String × List Char)
  | [] => none
  | '"' :: rest => some (String.ofList read.reverse, rest)
  | '\\' :: 'u' :: a :: b :: c :: d :: rest =>
    match unit? a b c d with
    | none => none
    | some u =>
      if u < 0xd800 || 0xdfff < u then scanString (Char.ofNat u :: read) rest
      else if 0xdc00 ≤ u then none
      else match rest with
        | '\\' :: 'u' :: a' :: b' :: c' :: d' :: rest =>
          match unit? a' b' c' d' with
          | none => none
          | some v =>
            if 0xdc00 ≤ v && v ≤ 0xdfff then
              scanString (Char.ofNat (0x10000 + 0x400 * (u - 0xd800) + (v - 0xdc00)) :: read) rest
            else none
        | _ => none
  | '\\' :: c :: rest =>
    match shortEscape? c with
    | none => none
    | some c => scanString (c :: read) rest
  | c :: rest => if c.toNat < 0x20 then none else scanString (c :: read) rest

/-- Whether a character stands between tokens. -/
def isBlank (c : Char) : Bool := c = ' ' || c = '\t' || c = '\n' || c = '\r'

/-- The token at the beginning of a text, and the rest. -/
def token? : List Char → Option (Token × List Char)
  | '[' :: rest => some (.openArray, rest)
  | ']' :: rest => some (.closeArray, rest)
  | '\x7b' :: rest => some (.openObject, rest)
  | '\x7d' :: rest => some (.closeObject, rest)
  | ':' :: rest => some (.colon, rest)
  | ',' :: rest => some (.comma, rest)
  | '"' :: rest => (scanString [] rest).map fun (s, rest) => (.value (.str s), rest)
  | 't' :: 'r' :: 'u' :: 'e' :: rest => some (.value (.bool true), rest)
  | 'f' :: 'a' :: 'l' :: 's' :: 'e' :: rest => some (.value (.bool false), rest)
  | 'n' :: 'u' :: 'l' :: 'l' :: rest => some (.value .null, rest)
  | cs => do
    let (n, rest) ← Numeral.scan cs
    return (.value (← n.value?), rest)

/-- The tokens of a text, after those already `read`. Every token takes at least one character, so
the length of the text is fuel enough. -/
def tokensFrom (read : Array Token) : Nat → List Char → Option (Array Token)
  | _, [] => some read
  | 0, _ => none
  | fuel + 1, c :: rest =>
    if isBlank c then tokensFrom read fuel rest
    else match token? (c :: rest) with
      | none => none
      | some (t, rest) => tokensFrom (read.push t) fuel rest

/-- The tokens of a text. -/
def tokens? (s : String) : Option (Array Token) := tokensFrom #[] s.length s.toList

/-- An array or object that is open, with what it holds so far, the last item first. -/
inductive Frame where
  | array (items : List Json)
  | object (fields : List (String × Json)) (key : String)

/-- What comes next. -/
inductive Expect where
  /-- A value; right after an opening bracket also the closing one. -/
  | value (orClose : Bool)
  /-- A key of the innermost object, which holds `fields`; right after its opening also
  the closing. -/
  | key (fields : List (String × Json)) (orClose : Bool)
  /-- The colon after a key. -/
  | colon (fields : List (String × Json)) (key : String)
  /-- A comma, or the end of the innermost array or object. -/
  | next
  /-- Nothing: the value is complete. -/
  | nothing (j : Json)

/-- Where the machine stands: the open arrays and objects, innermost first, and what comes next. -/
structure Reading where
  frames : List Frame
  expect : Expect

/-- A value is complete. -/
def Reading.complete (j : Json) : List Frame → Reading
  | [] => ⟨[], .nothing j⟩
  | .array items :: frames => ⟨.array (j :: items) :: frames, .next⟩
  | .object fields key :: frames => ⟨.object ((key, j) :: fields) key :: frames, .next⟩

/-- Take a token, if it may come next. At most `limit` arrays and objects are open at a time. -/
def Reading.step (limit : Nat) (r : Reading) (t : Token) : Option Reading :=
  match r.expect, t, r.frames with
  | .value _, .value j, frames => some (complete j frames)
  | .value _, .openArray, frames =>
    if frames.length < limit then some ⟨.array [] :: frames, .value true⟩ else none
  | .value _, .openObject, frames =>
    if frames.length < limit then some ⟨frames, .key [] true⟩ else none
  | .value true, .closeArray, .array [] :: frames => some (complete (.arr []) frames)
  | .key fields _, .value (.str key), frames => some ⟨frames, .colon fields key⟩
  | .key fields true, .closeObject, frames => some (complete (.obj fields) frames)
  | .colon fields key, .colon, frames => some ⟨.object fields key :: frames, .value false⟩
  | .next, .comma, .array items :: frames => some ⟨.array items :: frames, .value false⟩
  | .next, .comma, .object fields _ :: frames => some ⟨frames, .key fields false⟩
  | .next, .closeArray, .array items :: frames => some (complete (.arr items.reverse) frames)
  | .next, .closeObject, .object fields _ :: frames => some (complete (.obj fields.reverse) frames)
  | _, _, _ => none

/-- The value of some tokens. -/
def ofTokens? (limit : Nat) (ts : Array Token) : Option Json :=
  match ts.foldlM (Reading.step limit) ⟨[], .value false⟩ with
  | some ⟨[], .nothing j⟩ => some j
  | _ => none

/-- The value of a text in which arrays and objects nest at most `limit` deep. -/
def parse? (limit : Nat) (s : String) : Option Json := (tokens? s).bind (ofTokens? limit)

/-- How deep arrays and objects of a stored script may nest. -/
def nestingLimit : Nat := 127

end BotScript.Json
