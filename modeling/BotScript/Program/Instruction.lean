import BotScript.Script.Command

/-!
# Instructions

What a script is compiled to: a flat list of instructions with relative jumps.

## Main definitions

* `Instruction`: an instruction.
* `Instruction.offset?`: where a jump goes, relative to its own place.
* `Instruction.render`: the line of an instruction in a listing.
* `Instruction.toJson`, `Instruction.ofJson?`: its stored form.
-/

namespace BotScript

/-- An instruction. Offsets are relative to the place of the instruction. -/
inductive Instruction where
  | kill
  | sleep (duration : Expr)
  | logLiteral (tokens : List LogToken)
  | logWindow (who : Selector) (path : List String)
  | jump (offset : Int64)
  | jumpIf (test : Expr) (offset : Int64)
  | jumpIfNot (test : Expr) (offset : Int64)
  /-- Enter an `until` loop, whose end is at the offset. -/
  | enterUntil (test : Expr) (offset : Int64)
  | label (name : String)
  | ret
  | call (name : String)
  | act (who : Selector) (a : Action)
  | loadPlaystyle (who : Selector) (text : String)
  | assign (name : String) (value : Expr)
  | decrement (name : String)
  | nop

namespace Instruction

/-- The name of the kind of an instruction. -/
def kind : Instruction → String
  | kill => "kill"
  | sleep _ => "sleep"
  | logLiteral _ => "log_literal"
  | logWindow .. => "log_window"
  | jump _ => "jump"
  | jumpIf .. => "jump_if"
  | jumpIfNot .. => "jump_ifn"
  | enterUntil .. => "enter_until"
  | label _ => "label"
  | ret => "ret"
  | call _ => "call"
  | act .. => "deimos_call"
  | loadPlaystyle .. => "load_playstyle"
  | assign .. => "set_var"
  | decrement _ => "dec_var"
  | nop => "nop"

/-- Where an instruction may jump, relative to its own place. -/
def offset? : Instruction → Option Int64
  | jump offset | jumpIf _ offset | jumpIfNot _ offset | enterUntil _ offset => some offset
  | _ => none

/-- The line of an instruction in a listing: its kind and its operands. -/
def render (i : Instruction) : String :=
  i.kind ++ match i with
    | kill | ret | nop => ""
    | sleep duration => " " ++ duration.render
    | logLiteral tokens => String.join (tokens.map fun t => " " ++ t.render)
    | logWindow who path => " " ++ who.render ++ " " ++ Text.joinPath path
    | jump offset => " " ++ toString offset.toInt
    | jumpIf test offset | jumpIfNot test offset | enterUntil test offset =>
      " " ++ test.render ++ ", " ++ toString offset.toInt
    | label name | call name | decrement name => " " ++ name
    | act who a => " " ++ who.render ++ " " ++ a.render
    | loadPlaystyle who text => " " ++ who.render ++ " " ++ Text.quoted text
    | assign name value => " " ++ name ++ " " ++ value.render

/-! ### Stored form -/

/-- The content of the stored form, if there is one. -/
def content? : Instruction → Option Json
  | kill | ret | nop => none
  | sleep duration => some duration.toJson
  | logLiteral tokens => some (.arr (tokens.map LogToken.toJson))
  | logWindow who path => some (.obj [("selector", who.toJson), ("path", pathToJson path)])
  | jump offset => some (.int offset.toInt)
  | jumpIf test offset | jumpIfNot test offset | enterUntil test offset =>
    some (.obj [("cond", test.toJson), ("offset", .int offset.toInt)])
  | label name | call name | decrement name => some (.str name)
  | act who a => some (.obj [("selector", who.toJson), ("call", a.toJson "action")])
  | loadPlaystyle who text => some (.obj [("selector", who.toJson), ("playstyle", .str text)])
  | assign name value => some (.obj [("ident", .str name), ("expr", value.toJson)])

/-- The stored form of an instruction: its kind and its content. -/
def toJson (i : Instruction) : Json :=
  .obj (("kind", .str i.kind) :: match i.content? with | none => [] | some j => [("data", j)])

/-- Read an offset. -/
def readOffset (j : Json) : Option Int64 := (Json.integer? j).map Int64.ofInt

open Json Json.Record in
/-- Read an action, its name standing under `action`. -/
def readAction : Json → Option Action :=
  variant? "action" (Action.reader? (nullable "seconds" Expr.ofJson?))

/-- Read the fields of a content that has several; they have to stand under their names. -/
def readNamed {α : Type} (r : Json.Record α) : Json → Option α
  | .obj fields => r.all (.named fields)
  | _ => none

open Json Json.Record in
/-- Read a test and an offset. -/
def guarded (make : Expr → Int64 → Instruction) : Record Instruction := do
  let test ← required "cond" Expr.ofJson?
  let offset ← required "offset" readOffset
  return make test offset

open Json Json.Record in
/-- Read the content of an instruction of a given kind. -/
def readContent (kind : String) (c : Json) : Option Instruction :=
  match kind with
  | "sleep" => sleep <$> Expr.ofJson? c
  | "log_literal" => logLiteral <$> list? LogToken.ofJson? c
  | "log_window" => readNamed (do
    let who ← required "selector" Selector.ofJson?
    let path ← required "path" path?
    return logWindow who path) c
  | "jump" => jump <$> readOffset c
  | "jump_if" => readNamed (guarded jumpIf) c
  | "jump_ifn" => readNamed (guarded jumpIfNot) c
  | "enter_until" => readNamed (guarded enterUntil) c
  | "label" => label <$> string? c
  | "call" => call <$> string? c
  | "deimos_call" => readNamed (do
    let who ← required "selector" Selector.ofJson?
    let a ← required "call" readAction
    return act who a) c
  | "load_playstyle" => readNamed (do
    let who ← required "selector" Selector.ofJson?
    let text ← required "playstyle" string?
    return loadPlaystyle who text) c
  | "set_var" => readNamed (do
    let name ← required "ident" string?
    let value ← required "expr" Expr.ofJson?
    return assign name value) c
  | "dec_var" => decrement <$> string? c
  | _ => none

/-- An instruction without content: there is none, or it is `null`. -/
def withoutContent (i : Instruction) : Option Json → Option Instruction
  | none => some i
  | some .null => some i
  | _ => none

/-- Read an instruction. -/
def ofJson? (j : Json) : Option Instruction := do
  let (kind, content) ← Json.pair? "kind" "data" j
  match kind with
  | "kill" => withoutContent kill content
  | "ret" => withoutContent ret content
  | "nop" => withoutContent nop content
  | kind => content.bind (readContent kind)

end Instruction

end BotScript
