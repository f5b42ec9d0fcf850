import BotScript.Script.Value
import BotScript.Text.Quoted

/-!
# Calls to a client

Everything a script does to the outside world is a call to a client: an action, which
has no answer, or a question.

## Main definitions

* `AnswerKind`: what kind of answer a call has.
* `Call`: a call, by the kind of its answer.
* `ClientError`: why a call failed.
* `Call.name`, `Call.detail`: a call in the journal of a run.
-/

namespace BotScript

/-- Whom to teleport to in the list of friends. -/
inductive Friend where
  /-- The friend at a place of a list of icons. -/
  | icon (list index : Nat)
  | name (s : String)
  deriving DecidableEq

/-- The text of a friend. -/
def Friend.render : Friend → String
  | icon list index => "icon " ++ toString list ++ ":" ++ toString index
  | name s => "name " ++ s

/-- What kind of answer a call has. -/
inductive AnswerKind where
  | nothing
  | truth
  | text
  /-- A text, if there is one. -/
  | maybeText
  | position
  deriving DecidableEq, Repr

/-- The answers of a kind. -/
abbrev AnswerKind.Answer : AnswerKind → Type
  | nothing => Unit
  | truth => Bool
  | text => String
  | maybeText => Option String
  | position => Position

/-- A call to a client. -/
inductive Call : AnswerKind → Type where
  | teleport (goal : Position) : Call .nothing
  /-- Teleport to the closest entity of this name. -/
  | toEntity (name : String) : Call .nothing
  /-- Teleport to the closest entity whose name looks like this. -/
  | toEntityLike (name : String) : Call .nothing
  | toMob : Call .nothing
  | toFriend (f : Friend) : Call .nothing
  | goTo (x y : Float) : Call .nothing
  | sendKey (key : String) (seconds : Float) : Call .nothing
  | click (x y : Int32) : Call .nothing
  | usePotion : Call .nothing
  | buyPotions : Call .nothing
  | relog : Call .nothing
  | toZone (path : List String) : Call .nothing
  | loadPlaystyle (text : String) : Call .nothing
  | inDialog : Call .truth
  | inBattle : Call .truth
  | isFree : Call .truth
  | isLoading : Call .truth
  | windowVisible (path : List String) : Call .truth
  | zone : Call .text
  /-- The text of a window, if the window is there. -/
  | windowText (path : List String) : Call .maybeText
  | questPosition : Call .position

/-- Why a call failed. -/
inductive ClientError where
  | failed (operation message : String)
  | disconnected
  deriving DecidableEq

/-- The message of a failed call. -/
def ClientError.message : ClientError → String
  | failed operation message => operation ++ " failed: " ++ message
  | disconnected => "client disconnected"

namespace Call

variable {κ : AnswerKind}

/-- The name of a call. -/
def name : Call κ → String
  | teleport _ => "teleport"
  | toEntity _ => "tp_name"
  | toEntityLike _ => "tp_vague"
  | toMob => "tp_mob"
  | toFriend _ => "tp_friend"
  | goTo .. => "goto"
  | sendKey .. => "sendkey"
  | click .. => "click"
  | usePotion => "usepotion"
  | buyPotions => "buypotions"
  | relog => "relog"
  | toZone _ => "tozone"
  | loadPlaystyle _ => "load_playstyle"
  | inDialog => "dialog"
  | inBattle => "battle"
  | isFree => "free"
  | isLoading => "loading"
  | windowVisible _ => "window"
  | zone => "zone"
  | windowText _ => "text"
  | questPosition => "quest"

/-- The arguments of a call. -/
def detail : Call κ → String
  | teleport goal => goal.render
  | toEntity name | toEntityLike name => name
  | toFriend f => f.render
  | goTo x y => Number.text x ++ " " ++ Number.text y
  | sendKey key seconds => key ++ " " ++ Number.text seconds
  | click x y => toString x.toInt ++ " " ++ toString y.toInt
  | toZone path | windowVisible path | windowText path => Text.joinPath path
  | loadPlaystyle text => text
  | toMob | usePotion | buyPotions | relog | inDialog | inBattle | isFree | isLoading | zone
  | questPosition => ""

end Call

/-- The text of an answer. -/
def AnswerKind.renderAnswer : (κ : AnswerKind) → κ.Answer → String
  | nothing, _ => ""
  | truth, b => toString b
  | text, s => s
  | maybeText, none => "none"
  | maybeText, some s => s
  | position, p => p.render

end BotScript
