import BotScript.Toml.Literal

/-!
# Lines of a settings file

A settings file is a list of lines: headers of tables, headers of arrays of tables, and entries.
What the lines make together is another matter.

## Main definitions

* `Toml.Line`: a line.
* `Toml.keyPath`, `Toml.value`: a key, and the value at a depth of nesting.
* `Toml.lines?`: the lines of a file.
-/

namespace BotScript.Toml

open Number

/-- A line of a settings file. -/
inductive Line where
  | header (path : List String)
  | arrayHeader (path : List String)
  | entry (path : List String) (value : Toml)

/-- A reader takes characters from the front of a text, or fails. -/
abbrev Scan := StateT (List Char) Option

/-- The next character, which is left in place. -/
def peek : Scan (Option Char) := do return (← get).head?

/-- The characters at the front for which a test holds. -/
def takeWhile (test : Char → Bool) : Scan (List Char) := do
  let (taken, rest) := (← get).span test
  set rest
  return taken

/-- Take a character if it is the next one. -/
def skip? (c : Char) : Scan Bool := do
  match ← get with
  | d :: rest => if c = d then do set rest; return true else return false
  | [] => return false

/-- Take a character that has to be the next one. -/
def expect (c : Char) : Scan Unit := do if !(← skip? c) then failure

/-- Blanks within a line. -/
def blanks : Scan Unit := do let _ ← takeWhile fun c => c == ' ' || c == '\t'

/-- Whether a character may stand in a comment or in a string. -/
def isPlain (c : Char) : Bool := c == '\t' || (' ' ≤ c && c ≠ '\x7f')

/-- A comment, if there is one, up to the end of the line. -/
def comment : Scan Unit := do
  if (← peek) == some '#' then let _ ← takeWhile isPlain

/-- Take the end of a line, if it is next. -/
def newline? : Scan Bool := do
  match ← get with
  | '\n' :: rest | '\r' :: '\n' :: rest => set rest; return true
  | _ => return false

/-- The end of a line, or of the text, after blanks and a comment. -/
def endOfLine : Scan Unit := do
  blanks
  comment
  if !(← newline?) && (← peek).isSome then failure

/-- Blanks, comments and ends of lines. -/
def gap : Nat → Scan Unit
  | 0 => return ()
  | fuel + 1 => do
    blanks
    comment
    if ← newline? then gap fuel

/-- Blanks, comments and ends of lines, as many as there are. -/
def gaps : Scan Unit := do gap ((← get).length + 1)

/-! ### Strings -/

/-- The character of some hexadecimal digits. -/
def codePoint? (cs : List Char) : Option Char := do
  let n ← cs.foldlM (fun n c => (hexValue? c).map (16 * n + ·)) 0
  if Nat.isValidChar n then some (Char.ofNat n) else none

/-- The character of an escape, after the backslash, and the rest. -/
def escape? : List Char → Option (Char × List Char)
  | 'b' :: rest => some ('\x08', rest)
  | 't' :: rest => some ('\t', rest)
  | 'n' :: rest => some ('\n', rest)
  | 'f' :: rest => some ('\x0c', rest)
  | 'r' :: rest => some ('\r', rest)
  | '"' :: rest => some ('"', rest)
  | '\\' :: rest => some ('\\', rest)
  | 'u' :: a :: b :: c :: d :: rest => (codePoint? [a, b, c, d]).map (·, rest)
  | 'U' :: a :: b :: c :: d :: e :: f :: g :: h :: rest =>
    (codePoint? [a, b, c, d, e, f, g, h]).map (·, rest)
  | _ => none

/-- Whether a character is a blank or the end of a line. -/
def isGap (c : Char) : Bool := c == ' ' || c == '\t' || c == '\n' || c == '\r'

/-- The text after a backslash at the end of a line: blanks and ends of lines are passed over. -/
def continuation? (cs : List Char) : Option (List Char) :=
  match cs.dropWhile fun c => c == ' ' || c == '\t' with
  | '\n' :: rest | '\r' :: '\n' :: rest => some (rest.dropWhile isGap)
  | _ => none

/-- What a string is written in. -/
structure Quote where
  mark : Char
  /-- Whether backslashes have a meaning. -/
  escapes : Bool
  /-- Whether the string may go over several lines; it then is within three marks. -/
  long : Bool

/-- How many marks stand at the front of a text. -/
def countMarks (mark : Char) (cs : List Char) : Nat := (cs.takeWhile (· == mark)).length

/-- A string up to its closing mark, and the rest; `read` holds the characters so far, last first.
The last marks of a run of three to five close a long string, and those before them belong to it. -/
def stringBody (q : Quote) : Nat → List Char → List Char → Option (String × List Char)
  | 0, _, _ => none
  | fuel + 1, read, cs =>
    match cs with
    | [] => none
    | c :: rest =>
      if c = q.mark then
        if q.long then
          let marks := countMarks q.mark cs
          if marks < 3 then stringBody q fuel (c :: read) rest
          else if marks ≤ 5 then
            some (String.ofList (List.replicate (marks - 3) c ++ read).reverse, cs.drop marks)
          else none
        else some (String.ofList read.reverse, rest)
      else if c = '\\' ∧ q.escapes then
        match escape? rest with
        | some (d, rest) => stringBody q fuel (d :: read) rest
        | none =>
          if q.long then
            match continuation? rest with
            | some rest => stringBody q fuel read rest
            | none => none
          else none
      else if isPlain c then stringBody q fuel (c :: read) rest
      else if q.long then
        match cs with
        | '\n' :: rest | '\r' :: '\n' :: rest => stringBody q fuel ('\n' :: read) rest
        | _ => none
      else none

/-- A string within marks, after the opening one. -/
def shortString (mark : Char) : Scan String := fun cs =>
  stringBody ⟨mark, mark == '"', false⟩ (cs.length + 1) [] cs

/-- A string after its first mark, over several lines if it has three. The end of a line right after
three marks does not belong to it. -/
def string (mark : Char) : Scan String := fun cs =>
  if countMarks mark cs ≥ 2 then
    let cs := match cs.drop 2 with
      | '\n' :: rest | '\r' :: '\n' :: rest => rest
      | rest => rest
    stringBody ⟨mark, mark == '"', true⟩ (cs.length + 1) [] cs
  else shortString mark cs

/-! ### Keys -/

/-- Whether a character may stand in a key without marks. -/
def isBare (c : Char) : Bool := c.isAlphanum || c == '_' || c == '-'

/-- One part of a key. -/
def keyPart : Scan String := do
  if ← skip? '"' then shortString '"'
  else if ← skip? '\x27' then shortString '\x27'
  else
    match ← takeWhile isBare with
    | [] => failure
    | cs => return String.ofList cs

/-- The further parts of a key, each after a point. -/
def moreParts : Nat → Scan (List String)
  | 0 => return []
  | fuel + 1 => do
    blanks
    if ← skip? '.' then
      blanks
      let part ← keyPart
      return part :: (← moreParts fuel)
    else return []

/-- A key: parts with points between them. -/
def keyPath : Scan (List String) := do
  let first ← keyPart
  return first :: (← moreParts (← get).length)

/-! ### Values -/

/-- Whether a character may stand in a word. -/
def isWordChar (c : Char) :
    Bool := c.isAlphanum || c == '_' || c == '+' || c == '-' || c == '.' || c == ':'

/-- The word at the front. A date and a time may have a space between them. -/
def word : Scan Toml := do
  let cs ← takeWhile isWordChar
  let more ← match date? cs, ← get with
    | some (_, []), ' ' :: a :: b :: ':' :: rest =>
      if a.isDigit ∧ b.isDigit then do
        set (a :: b :: ':' :: rest)
        pure ('T' :: (← takeWhile isWordChar))
      else pure []
    | _, _ => pure []
  match word? (cs ++ more) with
  | some v => return v
  | none => failure

/-- A table that is being read from keys with points. -/
inductive Inline where
  | value (v : Toml)
  | dotted (entries : List (String × Inline))

/-- Put a value at a path that is not taken. -/
def placeInline (v : Toml) : List String → List (String × Inline) → Option (List (String × Inline))
  | [], _ => none
  | [key], entries => if entries.any (·.1 == key) then none else some (entries ++ [(key, .value v)])
  | key :: path, entries =>
    match entries.lookup key with
    | none => do return entries ++ [(key, .dotted (← placeInline v path []))]
    | some (.dotted inner) => do
      let inner ← placeInline v path inner
      return entries.map fun (k, old) => if k == key then (k, .dotted inner) else (k, old)
    | some (.value _) => none

mutual

/-- The value of an entry of a table in one line. -/
def Inline.toToml : Inline → Toml
  | .value v => v
  | .dotted entries => .table (inlineEntries entries)

/-- The entries of a table in one line. -/
def inlineEntries : List (String × Inline) → Entries
  | [] => []
  | (key, v) :: rest => (key, v.toToml) :: inlineEntries rest

end

/-- The items of an array, after the opening bracket. -/
def arrayItems (item : Scan Toml) : Nat → Scan (List Toml)
  | 0 => failure
  | fuel + 1 => do
    gaps
    if ← skip? ']' then return []
    let first ← item
    gaps
    if ← skip? ',' then return first :: (← arrayItems item fuel)
    expect ']'
    return [first]

/-- The entries of a table in one line, at least one, up to the closing brace. -/
def inlineItems (item : Scan Toml) : Nat → List (String × Inline) → Scan (List (String × Inline))
  | 0, _ => failure
  | fuel + 1, entries => do
    blanks
    let path ← keyPath
    blanks
    expect '='
    blanks
    let v ← item
    blanks
    match placeInline v path entries with
    | none => failure
    | some entries =>
      if ← skip? ',' then inlineItems item fuel entries
      else
        expect '\x7d'
        return entries

/-- A value in which arrays and tables nest up to a depth. -/
def value : Nat → Scan Toml
  | 0 => do
    if ← skip? '"' then return .str (← string '"')
    else if ← skip? '\x27' then return .str (← string '\x27')
    else word
  | depth + 1 => do
    if ← skip? '"' then return .str (← string '"')
    else if ← skip? '\x27' then return .str (← string '\x27')
    else if ← skip? '[' then return .arr (← arrayItems (value depth) ((← get).length + 1))
    else if ← skip? '\x7b' then
      blanks
      if ← skip? '\x7d' then return .table []
      return .table (inlineEntries (← inlineItems (value depth) (← get).length []))
    else word

/-- How deep arrays and tables may nest in a value. -/
def nestingLimit : Nat := 79

/-! ### Lines -/

/-- A line that is not empty. -/
def line : Scan Line := do
  if ← skip? '[' then
    let array ← skip? '['
    blanks
    let path ← keyPath
    blanks
    expect ']'
    if array then
      expect ']'
      endOfLine
      return .arrayHeader path
    else
      endOfLine
      return .header path
  else
    let path ← keyPath
    blanks
    expect '='
    blanks
    let v ← value nestingLimit
    endOfLine
    return .entry path v

/-- All lines. -/
def linesFrom : Nat → Scan (List Line)
  | 0 => return []
  | fuel + 1 => do
    gaps
    if (← peek).isNone then return []
    let first ← line
    return first :: (← linesFrom fuel)

/-- The lines of a file, which may begin with a byte order mark. -/
def lines? (s : String) : Option (List Line) :=
  let cs := match s.toList with
    | '\ufeff' :: rest => rest
    | cs => cs
  (linesFrom (cs.length + 1) cs).map (·.1)

end BotScript.Toml
