import BotScript.Client.World
import BotScript.Number.Duration

/-!
# Clients that do nothing

A dry-run client only takes note of its actions, and answers questions by a rule, so that any script
can be run without a game: truth values alternate, and so do two zones. The text of a window is its
own path.

## Main definitions

* `DryRun`: the state of a dry-run client.
* `DryRun.reply`: its reply to a call.
* `Call.notice`: how an action is noted.
* `World.notices`: the log of a run.
-/

namespace BotScript

/-- The notice about an action. Questions leave none. -/
def Call.notice {κ : AnswerKind} : Call κ → Option String
  | .teleport goal => some ("teleport to " ++ goal.render)
  | .toEntity name => some ("teleport to closest entity " ++ Text.quoted name)
  | .toEntityLike name => some ("teleport to closest entity like " ++ Text.quoted name)
  | .toMob => some "teleport to closest mob"
  | .toFriend f => some ("teleport to friend " ++ f.render)
  | .goTo x y => some ("goto (" ++ Number.text x ++ ", " ++ Number.text y ++ ")")
  | .sendKey key seconds => some ("send key " ++ key ++ " for " ++ Number.text seconds ++ "s")
  | .click x y => some ("click (" ++ toString x.toInt ++ ", " ++ toString y.toInt ++ ")")
  | .usePotion => some "use potion"
  | .buyPotions => some "buy potions"
  | .relog => some "relog"
  | .toZone path => some ("go to zone " ++ Text.joinPath path)
  | .loadPlaystyle text => some ("load playstyle " ++ Text.quoted text)
  | .inDialog | .inBattle | .isFree | .isLoading | .windowVisible _ | .zone | .windowText _
  | .questPosition => none

/-- The state of a dry-run client: how often it was asked for a truth value and for its zone, and
how many actions it has noted. The counters wrap around. -/
structure DryRun where
  flips : UInt64
  zoneQueries : UInt64
  actions : UInt64
  deriving DecidableEq

namespace DryRun

/-- A new dry-run client. -/
def fresh : DryRun := ⟨0, 0, 0⟩

/-- The zone of the first answer, and of every other one. -/
def homeZone : String := "WizardCity/WC_Hub"

/-- The zone of the second answer, and of every other one. -/
def awayZone : String := "WizardCity/WC_Streets/Interiors/WC_Bartleby"

/-- The next truth value. -/
def flip (s : DryRun) : Bool := s.flips % 2 == 0

/-- The next zone. -/
def zone (s : DryRun) : String := if s.zoneQueries % 2 == 0 then homeZone else awayZone

/-- The reply that comes at once. -/
def atOnce {κ : AnswerKind} (a : κ.Answer) : Reply κ := ⟨some 0, .ok a⟩

/-- The reply to a key press, which takes as long as the key is held. -/
def hold (seconds : Float) : Reply .nothing :=
  match Duration.ofSeconds seconds with
  | .ok d => ⟨some d.ticks, .ok ()⟩
  | .error f => ⟨some 0, .error (.failed "send_key" f.message)⟩

/-- The client with one more action. -/
def act (s : DryRun) : DryRun := { s with actions := s.actions + 1 }

/-- The client with one more truth value given. -/
def flipped (s : DryRun) : DryRun := { s with flips := s.flips + 1 }

/-- The reply to a call. -/
def reply {κ : AnswerKind} (c : Call κ) (s : DryRun) : Reply κ × DryRun :=
  match c with
  | .sendKey _ seconds => (hold seconds, s.act)
  | .teleport _ | .toEntity _ | .toEntityLike _ | .toMob | .toFriend _ | .goTo .. | .click ..
  | .usePotion | .buyPotions | .relog | .toZone _ | .loadPlaystyle _ => (atOnce (), s.act)
  | .inDialog | .inBattle | .isFree | .isLoading | .windowVisible _ => (atOnce s.flip, s.flipped)
  | .zone => (atOnce s.zone, { s with zoneQueries := s.zoneQueries + 1 })
  | .windowText path => (atOnce (some (Text.joinPath path)), s)
  | .questPosition => (atOnce ⟨0, 0, 0⟩, s)

instance : ClientModel DryRun where
  reply _ c s := s.reply c

end DryRun

/-! ### The log -/

/-- The line of an event in the log: the notice of a client that takes notes or, with `script`, a
line of the script. -/
def Event.notice? {n : Nat} (crew : Crew n) (takesNotes : Fin n → Bool) (script : Bool) :
    Event n → Option String
  | .made _ who c _ =>
    if takesNotes who then c.notice.map fun text => crew.title who ++ ": " ++ text else none
  | .line text => if script then some ("script: " ++ text) else none
  | .answered .. | .failed .. | .dropped .. => none

namespace World

variable {σ : Type} {n : Nat}

/-- The log: the notices of the clients that take notes and, with `script`, the lines of
the script. -/
def notices (crew : Crew n) (takesNotes : Fin n → Bool) (script : Bool) (w : World σ n) :
    List String :=
  w.history.filterMap (Event.notice? crew takesNotes script)

/-- The lines of the script. -/
def lines (w : World σ n) : List String :=
  w.history.filterMap fun
    | .line text => some text
    | _ => none

end World

end BotScript
