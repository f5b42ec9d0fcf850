import BotScript.Client.Scripted
import BotScript.Machine.Basic

/-!
# A cast for rehearsals

The crews, the clients with prepared replies and the machines that examples are made of.

## Main definitions

* `Cast.solo`, `Cast.pair`, `Cast.party`, `Cast.friends`, `Cast.crowd`: crews.
* `Cast.slow`: a client without prepared replies, of which the others are variants.
* `Cast.twoClients`, `Cast.unequal`, `Cast.dazed`, `Cast.fighters`: two clients that differ.
* `Cast.about`: a machine with one instruction.
-/

namespace BotScript.Cast

/-! ### Crews -/

/-- A client with an input focus of its own. -/
def solo : Crew 1 := #v[⟨"p1", none⟩]

/-- Two clients with an input focus each. -/
def pair : Crew 2 := #v[⟨"p1", none⟩, ⟨"p2", none⟩]

/-- The first of two clients. -/
def first : Fin 2 := 0

/-- The second of two clients. -/
def second : Fin 2 := 1

/-- Three clients with an input focus each. -/
def party : Crew 3 := #v[⟨"p1", none⟩, ⟨"p2", none⟩, ⟨"p3", none⟩]

/-- Three clients, of which the first two share the input focus. -/
def friends : Crew 3 := #v[⟨"p1", some 7⟩, ⟨"p2", some 7⟩, ⟨"p3", none⟩]

/-- Many clients with an input focus each. -/
def crowd : Crew 31 := (Vector.replicate 30 ⟨"p", none⟩).push ⟨"last", none⟩

/-! ### Clients -/

/-- Nothing is prepared, and all calls take some milliseconds. -/
def slow (ms : Nat) : Scripted := ⟨[], [], [], [], [], [], [], ⟨0, 0, 0⟩, [], [("*", ms)]⟩

/-- A client whose calls all take some milliseconds. -/
def slowClient (ms : Nat) : Rehearsal := .scripted (slow ms)

/-- A client with a text in its window, which may be bound to fail. -/
def rehearsed (text : String) (ms : Nat) (failures : List (String × Option String)) : Rehearsal :=
  .scripted { slow ms with windows := [("w", text)], failures }

/-- A client that tells whether it is in a dialog. -/
def talker (answers : List Bool) (ms : Nat) : Rehearsal :=
  .scripted { slow ms with dialog := answers.map .value }

/-- A client that tells whether it is in a battle. -/
def fighter (answers : List Bool) (ms : Nat) : Rehearsal :=
  .scripted { slow ms with battle := answers.map .value }

/-- A client with a quest. -/
def quester (goal : Position) (ms : Nat) : Rehearsal := .scripted { slow ms with quest := goal }

/-- A client that goes through zones, and tells whether it is loading one. -/
def traveller (zones : List (Prepared String)) (loading : List Bool) (ms : Nat) : Rehearsal :=
  .scripted { slow ms with zone := zones, loading := loading.map .value }

/-! ### Worlds -/

/-- Two clients, one faster than the other. -/
def twoClients : World Rehearsal 2 := .initial #v[slowClient 10, slowClient 100]

/-- Two clients, of which the second one is the faster; it fails to use a potion. -/
def unequal : World Rehearsal 2 :=
  .initial #v[rehearsed "a" 50 [], rehearsed "b" 20 [("usepotion", some "no")]]

/-- Two clients, of which the second one cannot tell whether it is in a battle. -/
def dazed : World Rehearsal 2 :=
  .initial #v[rehearsed "a" 50 [], rehearsed "b" 20 [("battle", some "no")]]

/-- Two clients, of which the second one is in a battle before the first one is. -/
def fighters : World Rehearsal 2 := .initial #v[fighter [false, true] 10, fighter [true] 30]

/-- Whether all clients are in a battle. -/
def allFight : Expr := .ask .all .inBattle

/-! ### Machines -/

/-- A machine that is about to carry out an instruction. -/
def about (i : Instruction) : Machine := (Machine.idle.load ⟨[i]⟩).start

end BotScript.Cast
