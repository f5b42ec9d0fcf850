import BotScript.Script.Command

/-!
# Statements

A script is a list of statements.

## Main definitions

* `Statement`: a statement.
* `Statement.toJson`, `Statement.ofJson?`: its stored form.
* `Script.ofJson?`: reading a script.
-/

namespace BotScript

/-- A statement of a script. -/
inductive Statement where
  /-- One statement after the other. -/
  | list (body : List Statement)
  | command (c : Command)
  /-- Define a block; reaching the definition does nothing. -/
  | block (name : String) (body : List Statement)
  | branch (test : Expr) (yes no : List Statement)
  /-- Repeat as long as the test holds, asked before each round. -/
  | whileLoop (test : Expr) (body : List Statement)
  /-- Repeat until the test holds, asked after each round. -/
  | untilLoop (test : Expr) (body : List Statement)
  | loop (body : List Statement)
  /-- Run the nearest block of this name above. -/
  | call (name : String)
  | assign (name : String) (value : Expr)
  | decrement (name : String)

namespace Statement

mutual

/-- The stored form of a statement. -/
def toJson : Statement → Json
  | list body => .variant "type" "list" [("stmts", .arr (toJsons body))]
  | command c => .variant "type" "command" [("command", c.toJson)]
  | block name body =>
    .variant "type" "block_def" [("ident", .str name), ("body", .arr (toJsons body))]
  | branch test yes no =>
    .variant "type" "if" [("expr", test.toJson), ("branch_true", .arr (toJsons yes)),
      ("branch_false", .arr (toJsons no))]
  | whileLoop test body =>
    .variant "type" "while" [("expr", test.toJson), ("body", .arr (toJsons body))]
  | untilLoop test body =>
    .variant "type" "until" [("expr", test.toJson), ("body", .arr (toJsons body))]
  | loop body => .variant "type" "loop" [("body", .arr (toJsons body))]
  | call name => .variant "type" "call" [("ident", .str name)]
  | assign name value => .variant "type" "set_var" [("ident", .str name), ("expr", value.toJson)]
  | decrement name => .variant "type" "dec_var" [("ident", .str name)]

/-- The stored forms of some statements. -/
def toJsons : List Statement → List Json
  | [] => []
  | s :: rest => toJson s :: toJsons rest

end

open Json Json.Record in
/-- How the fields of a statement of a given name are read. `body` says how the statements in it are
read. -/
def reader? (body : Json → Option (List Statement)) : String → Option (Record Statement)
  | "list" => some (list <$> required "stmts" body)
  | "command" => some (command <$> required "command" Command.ofJson?)
  | "block_def" => some (do
    let name ← required "ident" string?
    let body ← required "body" body
    return block name body)
  | "if" => some (do
    let test ← required "expr" Expr.ofJson?
    let yes ← required "branch_true" body
    let no ← defaulted "branch_false" body []
    return branch test yes no)
  | "while" => some (do
    let test ← required "expr" Expr.ofJson?
    let body ← required "body" body
    return whileLoop test body)
  | "until" => some (do
    let test ← required "expr" Expr.ofJson?
    let body ← required "body" body
    return untilLoop test body)
  | "loop" => some (loop <$> required "body" body)
  | "call" => some (call <$> required "ident" string?)
  | "set_var" => some (do
    let name ← required "ident" string?
    let value ← required "expr" Expr.ofJson?
    return assign name value)
  | "dec_var" => some (decrement <$> required "ident" string?)
  | _ => none

/-- Read a statement stored at most `fuel` levels deep. -/
def read : Nat → Json → Option Statement
  | 0, _ => none
  | fuel + 1, j => Json.variant? "type" (reader? (Json.list? (read fuel))) j

/-- Read a statement. -/
def ofJson? (j : Json) : Option Statement := read j.depth j

end Statement

/-- A script: statements one after the other. -/
abbrev Script := List Statement

namespace Script

/-- The stored form of a script. -/
def toJson (s : Script) : Json := .arr (Statement.toJsons s)

/-- Read a script. -/
def ofJson? : Json → Option Script := Json.list? Statement.ofJson?

/-- The names of the commands at the top level. -/
def commandNames (s : Script) : List String :=
  s.filterMap fun
    | .command c => some c.kind.name
    | _ => none

end Script

end BotScript
