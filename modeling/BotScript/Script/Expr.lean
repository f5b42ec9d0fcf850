import BotScript.Script.Selector
import BotScript.Text.Quoted
import BotScript.Number.Layout

/-!
# Expressions

Expressions stand for values. Some ask the clients a question: a predicate holds if it holds of
every client that its selector means.

## Main definitions

* `Predicate`: a question to clients with a yes or no answer.
* `Expr`: an expression.
* `Expr.render`: its text.
* `Expr.toJson`, `Expr.ofJson?`: its stored form.
-/

namespace BotScript

/-- The operators with one operand. -/
inductive UnaryOp where
  | negate
  | not
  deriving DecidableEq, Repr

/-- A question to clients with a yes or no answer. -/
inductive Predicate where
  /-- A window is visible. -/
  | windowVisible (path : List String)
  /-- The client is in a zone. -/
  | inZone (path : List String)
  /-- Two clients, counted from one, are in the same zone. -/
  | sameZone (a b : UInt64)
  | inBattle
  | inDialog
  deriving DecidableEq

/-- An expression. -/
inductive Expr where
  | number (x : Float)
  | string (s : String)
  | key (k : String)
  | position (x y z : Expr)
  | unary (op : UnaryOp) (e : Expr)
  | ask (who : Selector) (p : Predicate)
  | var (name : String)

/-! ### Text -/

/-- The text of a predicate. -/
def Predicate.render : Predicate → String
  | windowVisible path => "window_visible " ++ Text.joinPath path
  | inZone path => "in_zone " ++ Text.joinPath path
  | sameZone a b => "same_zone " ++ toString a.toNat ++ " " ++ toString b.toNat
  | inBattle => "in_battle"
  | inDialog => "in_dialog"

/-- The text of an expression. -/
def Expr.render : Expr → String
  | number x => Number.text x
  | string s => Text.quoted s
  | key k => k
  | position x y z => "xyz(" ++ x.render ++ ", " ++ y.render ++ ", " ++ z.render ++ ")"
  | unary .negate e => "-" ++ e.render
  | unary .not e => "not " ++ e.render
  | ask who p => who.render ++ " " ++ p.render
  | var name => "$" ++ name

/-! ### Stored form -/

/-- The stored form of an operator. -/
def UnaryOp.toJson : UnaryOp → Json
  | negate => .str "negate"
  | not => .str "not"

/-- Read an operator. -/
def UnaryOp.ofJson? (j : Json) : Option UnaryOp := do
  match ← Json.name? j with
  | "negate" => return negate
  | "not" => return not
  | _ => none

/-- The stored form of a path. -/
def pathToJson (path : List String) : Json := .arr (path.map .str)

/-- Read a path. -/
def path? : Json → Option (List String) := Json.list? Json.string?

/-- The stored form of a record that is one of several variants. -/
def Json.variant (tag name : String) (fields : List (String × Json)) : Json :=
  .obj ((tag, .str name) :: fields)

/-- The stored form of a predicate. -/
def Predicate.toJson : Predicate → Json
  | windowVisible path => .variant "type" "window_visible" [("path", pathToJson path)]
  | inZone path => .variant "type" "in_zone" [("path", pathToJson path)]
  | sameZone a b => .variant "type" "same_zone" [("a", .int a.toNat), ("b", .int b.toNat)]
  | inBattle => .variant "type" "in_battle" []
  | inDialog => .variant "type" "in_dialog" []

open Json Json.Record in
/-- How the fields of a predicate of a given name are read. -/
def Predicate.reader? : String → Option (Record Predicate)
  | "window_visible" => some (windowVisible <$> required "path" path?)
  | "in_zone" => some (inZone <$> required "path" path?)
  | "same_zone" => some (do
    let a ← required "a" natural?
    let b ← required "b" natural?
    return sameZone a.toUInt64 b.toUInt64)
  | "in_battle" => some (pure inBattle)
  | "in_dialog" => some (pure inDialog)
  | _ => none

/-- Read a predicate. -/
def Predicate.ofJson? : Json → Option Predicate := Json.variant? "type" Predicate.reader?

/-- The stored form of an expression. -/
def Expr.toJson : Expr → Json
  | number x => .variant "type" "number" [("value", .real x)]
  | string s => .variant "type" "string" [("value", .str s)]
  | key k => .variant "type" "key" [("key", .str k)]
  | position x y z => .variant "type" "xyz" [("x", x.toJson), ("y", y.toJson), ("z", z.toJson)]
  | unary op e => .variant "type" "unary" [("op", op.toJson), ("expr", e.toJson)]
  | ask who p => .variant "type" "command" [("selector", who.toJson), ("predicate", p.toJson)]
  | var name => .variant "type" "var" [("ident", .str name)]

open Json Json.Record in
/-- How the fields of an expression of a given name are read. `read` says how the
expressions in it are read. -/
def Expr.reader? (read : Json → Option Expr) : String → Option (Record Expr)
  | "number" => some (number <$> required "value" number?)
  | "string" => some (string <$> required "value" string?)
  | "key" => some (key <$> required "key" string?)
  | "xyz" => some (do
    let x ← required "x" read
    let y ← required "y" read
    let z ← required "z" read
    return position x y z)
  | "unary" => some (do
    let op ← required "op" UnaryOp.ofJson?
    let e ← required "expr" read
    return unary op e)
  | "command" => some (do
    let who ← defaulted "selector" Selector.ofJson? .all
    let p ← required "predicate" Predicate.ofJson?
    return ask who p)
  | "var" => some (var <$> required "ident" string?)
  | _ => none

/-- Read an expression stored at most `fuel` levels deep. -/
def Expr.read : Nat → Json → Option Expr
  | 0, _ => none
  | fuel + 1, j => Json.variant? "type" (Expr.reader? (read fuel)) j

/-- Read an expression. -/
def Expr.ofJson? (j : Json) : Option Expr := Expr.read j.depth j

end BotScript
