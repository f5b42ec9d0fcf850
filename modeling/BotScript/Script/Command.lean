import BotScript.Script.Expr

/-!
# Commands

A command tells the selected clients to do something, or the script itself to log, sleep or stop.

## Main definitions

* `Action`: something clients do or wait for.
* `LogOutput`: what is logged.
* `Command`: who does what.
* `Action.render`: the text of an action.
* `Command.toJson`, `Command.ofJson?`: the stored form.
-/

namespace BotScript

/-- A piece of a log line: a quoted text or a bare word. -/
inductive LogToken where
  | string (s : String)
  | word (s : String)
  deriving DecidableEq

/-- What is logged: a line of tokens, or the text of a window of each selected client. -/
inductive LogOutput where
  | literal (tokens : List LogToken)
  | window (path : List String)
  deriving DecidableEq

/-- Where to teleport. -/
inductive Destination where
  | position (e : Expr)
  /-- The closest entity of this name. -/
  | entity (name : String)
  /-- The closest entity whose name looks like this. -/
  | entityLike (name : String)
  /-- The closest mob. -/
  | mob
  /-- The position of the client's own quest. -/
  | quest
  /-- The friend at the top of the list, by icon. -/
  | friendIcon
  | friendName (name : String)

/-- What to wait for. -/
inductive WaitKind where
  | dialog
  | battle
  | free
  | zoneChange
  | window (path : List String)
  deriving DecidableEq

/-- A wait until something holds and, with `completion`, until it no longer does. -/
structure Wait where
  kind : WaitKind
  completion : Bool
  deriving DecidableEq

/-- Something clients do or wait for. -/
inductive Action where
  /-- Press a key for some seconds. -/
  | sendKey (key : Expr) (seconds : Option Expr)
  | click (x y : Expr)
  | teleport (goal : Destination)
  | goTo (target : Expr)
  | usePotion
  | buyPotions
  | relog
  | toZone (path : List String)
  | waitFor (w : Wait)

/-- What a command does. -/
inductive CommandKind where
  /-- Stop the script for good. -/
  | kill
  | sleep (duration : Expr)
  | log (output : LogOutput)
  | act (a : Action)
  | loadPlaystyle (text : String)
  /-- A question without use for its answer. -/
  | expr (p : Predicate)

/-- Who does what. -/
structure Command where
  who : Selector
  kind : CommandKind

/-! ### Text -/

/-- The text of a token in a listing. -/
def LogToken.render : LogToken → String
  | string s => Text.quoted s
  | word s => s

/-- The text of a token in a log line. -/
def LogToken.text : LogToken → String
  | string s => s
  | word s => s

/-- The text of a destination. -/
def Destination.render : Destination → String
  | position e => e.render
  | entity name => "entity " ++ Text.quoted name
  | entityLike name => "entity_vague " ++ Text.quoted name
  | mob => "mob"
  | quest => "quest"
  | friendIcon => "friend_icon"
  | friendName name => "friend_name " ++ Text.quoted name

/-- The text of what is waited for. -/
def WaitKind.render : WaitKind → String
  | dialog => "dialog"
  | battle => "battle"
  | free => "free"
  | zoneChange => "zonechange"
  | window path => "window " ++ Text.joinPath path

/-- The text of a wait. -/
def Wait.render (w : Wait) : String := w.kind.render ++ if w.completion then " completion" else ""

/-- The name of an action. -/
def Action.name : Action → String
  | sendKey .. => "sendkey"
  | click .. => "click"
  | teleport _ => "teleport"
  | goTo _ => "goto"
  | usePotion => "usepotion"
  | buyPotions => "buypotions"
  | relog => "relog"
  | toZone _ => "tozone"
  | waitFor _ => "waitfor"

/-- The text of an action: its name and its operands. -/
def Action.render (a : Action) : String :=
  a.name ++ match a with
    | sendKey key none => " " ++ key.render
    | sendKey key (some seconds) => " " ++ key.render ++ " " ++ seconds.render
    | click x y => " " ++ x.render ++ " " ++ y.render
    | teleport goal => " " ++ goal.render
    | goTo target => " " ++ target.render
    | usePotion | buyPotions | relog => ""
    | toZone path => " " ++ Text.joinPath path
    | waitFor w => " " ++ w.render

/-- The name of a command. -/
def CommandKind.name : CommandKind → String
  | kill => "kill"
  | sleep _ => "sleep"
  | log _ => "log"
  | act a => a.name
  | loadPlaystyle _ => "load_playstyle"
  | expr _ => "expr"

/-! ### Stored form -/

/-- The stored form of a token. -/
def LogToken.toJson : LogToken → Json
  | string s => .obj [("t", .str "string"), ("v", .str s)]
  | word s => .obj [("t", .str "ident"), ("v", .str s)]

/-- Read a token. -/
def LogToken.ofJson? (j : Json) : Option LogToken := do
  match ← Json.pair? "t" "v" j with
  | ("string", some c) => return string (← Json.string? c)
  | ("ident", some c) => return word (← Json.string? c)
  | _ => none

/-- The stored form of a log output. -/
def LogOutput.toJson : LogOutput → Json
  | literal tokens => .variant "kind" "literal" [("tokens", .arr (tokens.map LogToken.toJson))]
  | window path => .variant "kind" "window" [("path", pathToJson path)]

open Json Json.Record in
/-- How the fields of a log output of a given name are read. -/
def LogOutput.reader? : String → Option (Record LogOutput)
  | "literal" => some (literal <$> required "tokens" (list? LogToken.ofJson?))
  | "window" => some (window <$> required "path" path?)
  | _ => none

/-- Read a log output. -/
def LogOutput.ofJson? : Json → Option LogOutput := Json.variant? "kind" LogOutput.reader?

/-- The stored form of a destination. -/
def Destination.toJson : Destination → Json
  | position e => .variant "type" "position" [("position", e.toJson)]
  | entity name => .variant "type" "entity_literal" [("name", .str name)]
  | entityLike name => .variant "type" "entity_vague" [("name", .str name)]
  | mob => .variant "type" "mob" []
  | quest => .variant "type" "quest" []
  | friendIcon => .variant "type" "friend_icon" []
  | friendName name => .variant "type" "friend_name" [("name", .str name)]

open Json Json.Record in
/-- How the fields of a destination of a given name are read. -/
def Destination.reader? : String → Option (Record Destination)
  | "position" => some (position <$> required "position" Expr.ofJson?)
  | "entity_literal" => some (entity <$> required "name" string?)
  | "entity_vague" => some (entityLike <$> required "name" string?)
  | "mob" => some (pure mob)
  | "quest" => some (pure quest)
  | "friend_icon" => some (pure friendIcon)
  | "friend_name" => some (friendName <$> required "name" string?)
  | _ => none

/-- Read a destination. -/
def Destination.ofJson? : Json → Option Destination := Json.variant? "type" Destination.reader?

/-- The stored form of what is waited for. -/
def WaitKind.toJson : WaitKind → Json
  | dialog => .variant "type" "dialog" []
  | battle => .variant "type" "battle" []
  | free => .variant "type" "free" []
  | zoneChange => .variant "type" "zonechange" []
  | window path => .variant "type" "window" [("path", pathToJson path)]

open Json Json.Record in
/-- How the fields of what is waited for are read, given its name. -/
def WaitKind.reader? : String → Option (Record WaitKind)
  | "dialog" => some (pure dialog)
  | "battle" => some (pure battle)
  | "free" => some (pure free)
  | "zonechange" => some (pure zoneChange)
  | "window" => some (window <$> required "path" path?)
  | _ => none

/-- Read what is waited for. -/
def WaitKind.ofJson? : Json → Option WaitKind := Json.variant? "type" WaitKind.reader?

/-- The fields of an action, in the order of their declaration. -/
def Action.fields : Action → List (String × Json)
  | sendKey key seconds =>
    [("key", key.toJson), ("seconds", match seconds with | none => .null | some e => e.toJson)]
  | click x y => [("x", x.toJson), ("y", y.toJson)]
  | teleport goal => [("target", goal.toJson)]
  | goTo target => [("target", target.toJson)]
  | usePotion | buyPotions | relog => []
  | toZone path => [("path", pathToJson path)]
  | waitFor w => [("kind", w.kind.toJson), ("completion", .bool w.completion)]

/-- The stored form of an action, its name standing under `tag`. -/
def Action.toJson (tag : String) (a : Action) : Json := .variant tag a.name a.fields

open Json Json.Record in
/-- How the fields of an action of a given name are read. `seconds` says how the optional length of
a key press is read. -/
def Action.reader? (seconds : Record (Option Expr)) : String → Option (Record Action)
  | "sendkey" => some (do
    let key ← required "key" Expr.ofJson?
    let seconds ← seconds
    return sendKey key seconds)
  | "click" => some (do
    let x ← required "x" Expr.ofJson?
    let y ← required "y" Expr.ofJson?
    return click x y)
  | "teleport" => some (teleport <$> required "target" Destination.ofJson?)
  | "goto" => some (goTo <$> required "target" Expr.ofJson?)
  | "usepotion" => some (pure usePotion)
  | "buypotions" => some (pure buyPotions)
  | "relog" => some (pure relog)
  | "tozone" => some (toZone <$> required "path" path?)
  | "waitfor" => some (do
    let kind ← required "kind" WaitKind.ofJson?
    let completion ← defaulted "completion" bool? false
    return waitFor ⟨kind, completion⟩)
  | _ => none

/-- The stored form of what a command does. -/
def CommandKind.toJson : CommandKind → Json
  | kill => .variant "type" "kill" []
  | sleep duration => .variant "type" "sleep" [("duration", duration.toJson)]
  | log output => .variant "type" "log" [("output", output.toJson)]
  | act a => a.toJson "type"
  | loadPlaystyle text => .variant "type" "load_playstyle" [("playstyle", .str text)]
  | expr p => .variant "type" "expr" [("predicate", p.toJson)]

open Json Json.Record in
/-- How the fields of what a command does are read, given its name. -/
def CommandKind.reader? : String → Option (Record CommandKind)
  | "kill" => some (pure kill)
  | "sleep" => some (sleep <$> required "duration" Expr.ofJson?)
  | "log" => some (log <$> required "output" LogOutput.ofJson?)
  | "load_playstyle" => some (loadPlaystyle <$> required "playstyle" string?)
  | "expr" => some (expr <$> required "predicate" Predicate.ofJson?)
  | name => (Action.reader? (defaulted "seconds" (orNull Expr.ofJson?) none) name).map (act <$> ·)

/-- Read what a command does. -/
def CommandKind.ofJson? : Json → Option CommandKind := Json.variant? "type" CommandKind.reader?

/-- The stored form of a command. -/
def Command.toJson (c : Command) : Json :=
  .obj [("selector", c.who.toJson), ("kind", c.kind.toJson)]

open Json Json.Record in
/-- Read a command; without a selector it is for all clients. -/
def Command.ofJson? : Json → Option Command :=
  record do
    let who ← defaulted "selector" Selector.ofJson? .all
    let kind ← required "kind" CommandKind.ofJson?
    return ⟨who, kind⟩

end BotScript
