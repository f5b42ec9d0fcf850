import BotScript.Machine.Evaluation

/-!
# Performing actions

How the selected clients carry out an action. Most actions are started on all of them, in order, and
then waited for together. Where an action takes several calls, each client goes through its own
chain of them, side by side with the others.

## Main definitions

* `Action.perform`: carry out an action.
* `windowLines`: the lines that log a window.
-/

namespace BotScript

open Activity

variable {n : Nat}

/-- Start an action on some clients, in order, then wait for all. -/
def allDo (clients : List (Fin n)) (c : Call .nothing) : Activity n Unit := do
  forEach (fun who => start who c) clients
  joined

/-- Start an action on some clients, in order, each towards the position that an expression has by
then; then wait for all. -/
def allMove (crew : Crew n) (vars : Variables) (context : String) (target : Expr)
    (c : Position → Call .nothing) (clients : List (Fin n)) : Activity n Unit := do
  forEach (fun who => do start who (c (← target.evalPosition crew vars context))) clients
  joined

/-- Run one chain for each of some clients, side by side. -/
def eachRun {κ : AnswerKind} (chain : Chain κ) (clients : List (Fin n)) :
    Activity n (List κ.Answer) :=
  together (clients.map fun who => (who, chain))

/-- Teleport to the position of the quest. -/
def questChain : Chain .nothing := .call .questPosition fun p => .once (.teleport p)

/-- Teleport to a friend. The list of friends takes the input focus. -/
def friendChain (f : Friend) : Chain .nothing := .focus (.once (.toFriend f))

/-- The friend at the top of the list for teleports. -/
def topFriend : Friend := .icon 2 0

/-- Teleport some clients. -/
def Destination.perform (crew : Crew n) (vars : Variables) (clients : List (Fin n)) :
    Destination → Activity n Unit
  | .position target => allMove crew vars "teleport" target .teleport clients
  | .entity name => allDo clients (.toEntity name)
  | .entityLike name => allDo clients (.toEntityLike name)
  | .mob => allDo clients .toMob
  | .quest => do let _ ← eachRun questChain clients
  | .friendIcon => do let _ ← eachRun (friendChain topFriend) clients
  | .friendName name => do let _ ← eachRun (friendChain (.name name)) clients

/-- Ask until the answer is yes and, with `completion`, then until it is no. -/
def waitChain (c : Call .truth) (completion : Bool) (every : Nat) : Chain .nothing :=
  .poll c (fun b => b) every
    (if completion then .poll c (fun b => !b) every (.done ()) else .done ())

/-- The zones of some clients, asked one after the other. -/
def zones : List (Fin n) → Activity n (List (Fin n × String))
  | [] => return []
  | who :: rest => do
    let zone ← query who .zone
    return (who, zone) :: (← zones rest)

/-- Ask until the zone is another one. -/
def leaveChain (start : String) (every : Nat) : Chain .nothing :=
  .poll .zone (· != start) every (.done ())

/-- Ask until the client is no longer loading. -/
def loadedChain (every : Nat) : Chain .nothing := .poll .isLoading (fun b => !b) every (.done ())

/-- Wait until some clients have left the zones they are in and, with `completion`, then until none
of them is loading. -/
def zoneChange (every : Nat) (completion : Bool) (clients : List (Fin n)) : Activity n Unit := do
  let starts ← zones clients
  let _ ← together (starts.map fun (who, start) => (who, leaveChain start every))
  if completion then
    let _ ← eachRun (loadedChain every) clients

/-- Let some clients wait. -/
def Wait.perform (every : Nat) (clients : List (Fin n)) (wait : Wait) : Activity n Unit :=
  match wait.kind with
  | .dialog => each .inDialog
  | .battle => each .inBattle
  | .free => each .isFree
  | .window path => each (.windowVisible path)
  | .zoneChange => zoneChange every wait.completion clients
where
  /-- Each client waits for its own answers. -/
  each (c : Call .truth) : Activity n Unit := do
    let _ ← eachRun (waitChain c wait.completion every) clients

/-- How long a key is pressed if nothing is said. -/
def defaultHold : Float := 0.1

/-- Let some clients carry out an action; `every` is how many milliseconds they rest
when they poll. -/
def Action.perform (crew : Crew n) (every : Nat) (vars : Variables) (clients : List (Fin n)) :
    Action → Activity n Unit
  | .sendKey key seconds => do
    let key ← key.evalKey crew vars
    let seconds ← match seconds with
      | some e => e.evalNumber crew vars "sendkey"
      | none => pure defaultHold
    let _ ← lift (secondsOperand "sendkey" seconds)
    allDo clients (.sendKey key seconds)
  | .click x y => do
    let x ← lift (coordinate (← x.evalNumber crew vars "click"))
    let y ← lift (coordinate (← y.evalNumber crew vars "click"))
    allDo clients (.click x y)
  | .teleport goal => goal.perform crew vars clients
  | .goTo target => allMove crew vars "goto" target (fun p => .goTo p.x p.y) clients
  | .usePotion => allDo clients .usePotion
  | .buyPotions => allDo clients .buyPotions
  | .relog => allDo clients .relog
  | .toZone path => allDo clients (.toZone path)
  | .waitFor wait => wait.perform every clients

/-- Get the text of a window from one client. -/
def windowChain (path : List String) : Chain .text :=
  .call (.windowText path) fun
    | some text => .done text
    | none => .fail (.windowNotFound (Text.joinPath path))

/-- The lines for the text of a window, one for each of some clients, in order. -/
def windowLines (crew : Crew n) (path : List String) (clients : List (Fin n)) :
    Activity n (List String) := do
  let texts ← eachRun (windowChain path) clients
  return List.zipWith (fun who text => crew.title who ++ " - " ++ text) clients texts

end BotScript
