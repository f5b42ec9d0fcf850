import BotScript.Client.DryRun

/-!
# Clients that follow a script

For rehearsals: a client whose answers, failures and delays are laid down beforehand.

## Main definitions

* `Scripted`: a client with prepared replies.
* `Rehearsal`: a dry-run client or one with prepared replies.
* `World.callLines`: what happened to the calls of clients with prepared replies.
-/

namespace BotScript

/-- A prepared answer: a value, or a failure with a message, or without one if the
client is gone. -/
inductive Prepared (α : Type) where
  | value (a : α)
  | failure (message : Option String)

namespace Prepared

variable {α : Type}

/-- The error of a failure of a call. -/
def error (operation : String) : Option String → ClientError
  | some message => .failed operation message
  | none => .disconnected

/-- What a prepared answer to a call comes to. -/
def result (operation : String) : Prepared α → Except ClientError α
  | value a => .ok a
  | failure message => .error (error operation message)

/-- The next of some answers, the last of which repeats. -/
def next (fallback : α) : List (Prepared α) → Prepared α × List (Prepared α)
  | [] => (.value fallback, [])
  | [a] => (a, [a])
  | a :: rest => (a, rest)

end Prepared

/-- A client with prepared replies. Calls that fail, and how many milliseconds calls take, are
listed by the name of the call; `*` stands for the calls not listed. -/
structure Scripted where
  dialog : List (Prepared Bool)
  battle : List (Prepared Bool)
  free : List (Prepared Bool)
  loading : List (Prepared Bool)
  window : List (Prepared Bool)
  zone : List (Prepared String)
  windows : List (String × String)
  quest : Position
  failures : List (String × Option String)
  delays : List (String × Nat)

namespace Scripted

/-- How many milliseconds a call takes. -/
def delay (s : Scripted) (name : String) : Nat :=
  ((s.delays.lookup name).or (s.delays.lookup "*")).getD 0

/-- What comes of a call if it is not listed as failing, and the client after it. -/
def answer {κ : AnswerKind} (c : Call κ) (s : Scripted) : Prepared κ.Answer × Scripted :=
  match c with
  | .inDialog =>
    let (a, rest) := Prepared.next true s.dialog
    (a, { s with dialog := rest })
  | .inBattle =>
    let (a, rest) := Prepared.next true s.battle
    (a, { s with battle := rest })
  | .isFree =>
    let (a, rest) := Prepared.next true s.free
    (a, { s with free := rest })
  | .isLoading =>
    let (a, rest) := Prepared.next false s.loading
    (a, { s with loading := rest })
  | .windowVisible _ =>
    let (a, rest) := Prepared.next true s.window
    (a, { s with window := rest })
  | .zone =>
    let (a, rest) := Prepared.next DryRun.homeZone s.zone
    (a, { s with zone := rest })
  | .windowText path => (.value (s.windows.lookup (Text.joinPath path)), s)
  | .questPosition => (.value s.quest, s)
  | .teleport _ | .toEntity _ | .toEntityLike _ | .toMob | .toFriend _ | .goTo .. | .sendKey ..
  | .click .. | .usePotion | .buyPotions | .relog | .toZone _ | .loadPlaystyle _ => (.value (), s)

/-- The reply to a call. -/
def reply {κ : AnswerKind} (c : Call κ) (s : Scripted) : Reply κ × Scripted :=
  let (a, s') := s.answer c
  let result := match s.failures.lookup c.name with
    | some message => .error (Prepared.error c.name message)
    | none => a.result c.name
  (⟨some (s.delay c.name), result⟩, s')

end Scripted

/-- A client for rehearsals. -/
inductive Rehearsal where
  | dryRun (s : DryRun)
  | scripted (s : Scripted)

namespace Rehearsal

/-- The reply to a call. -/
def reply {κ : AnswerKind} (c : Call κ) : Rehearsal → Reply κ × Rehearsal
  | dryRun s =>
    let (r, s) := s.reply c
    (r, dryRun s)
  | scripted s =>
    let (r, s) := s.reply c
    (r, scripted s)

instance : ClientModel Rehearsal where
  reply _ c s := s.reply c

/-- The number of actions of a dry-run client. -/
def actions? : Rehearsal → Option Nat
  | dryRun s => some s.actions.toNat
  | scripted _ => none

/-- Whether a client is a dry-run client. -/
def isDryRun : Rehearsal → Bool
  | dryRun _ => true
  | scripted _ => false

end Rehearsal

namespace World

variable {n : Nat}

/-- The line of an event of a client with prepared replies. -/
def callLine? (crew : Crew n) (w : World Rehearsal n) (e : Event n) : Option String :=
  match e with
  | .made _ who _ _ | .answered _ who _ _ | .failed _ who _ _ | .dropped _ who _ =>
    if (w.clients.get who).isDryRun then none else some (e.render crew)
  | .line _ => none

/-- What happened to the calls of clients with prepared replies. -/
def callLines (crew : Crew n) (w : World Rehearsal n) : List String :=
  w.history.filterMap (w.callLine? crew)

end World

end BotScript
