import BotScript.Activity.Basic
import BotScript.Client.World

/-!
# Groups

The chains of a group run side by side on one clock. At each instant the members are looked at in
order, and each goes as far as it can; when nobody can go on, time passes. A member that gets the
input focus from a later one has its turn once those behind it have had theirs.

A group ends when all its chains have, or when one has failed. In a small group the first failure
ends the group at once. In a large one the results are collected in order, so a failure counts only
when all members before it have ended well.

It is assumed of whoever runs a group that a member that can go on is never held back. Where only so
much can be taken up in one turn, as for the loop that watches tasks, this holds as long as the
members of a group do not wake up, or get the focus, more often than that at one instant. Beyond
that, those at the end of the group go on at the same instant, but in another order.

## Main definitions

* `Stage`: how far a chain has come.
* `Group`: the members of a group and whose turn it is.
* `Group.verdict`: the result of a group, once it has one.
* `Group.next?`: the member whose turn it is.
* `Group.move`: that member does one thing.
-/

namespace BotScript

/-- How far a chain has come. -/
inductive Stage (κ : AnswerKind) where
  /-- It can go on. -/
  | ready (c : Chain κ)
  /-- It waits for a call, which comes to its end when it is due, if ever. -/
  | calling {ι : AnswerKind} (c : Call ι) (due : Option Nat) (result : Except ClientError ι.Answer)
      (next : ι.Answer → Chain κ)
  | resting (due : Nat) (next : Chain κ)
  /-- It waits for the input focus. -/
  | queued (next : Chain κ)
  | ended (r : Except Fault κ.Answer)

/-- A client of a group and how far its chain has come. -/
structure Member (n : Nat) (κ : AnswerKind) where
  who : Fin n
  stage : Stage κ

/-- The time a reply comes at. -/
def Reply.due {κ : AnswerKind} (r : Reply κ) (now : Nat) : Option Nat := r.delay.map (now + ·)

/-- Whether something due at a time, if ever, has come. -/
def isDue (now : Nat) : Option Nat → Bool
  | none => false
  | some t => t ≤ now

/-- The earlier of two times, either of which may never come. -/
def earlier : Option Nat → Option Nat → Option Nat
  | none, t => t
  | t, none => t
  | some s, some t => some (min s t)

namespace Member

variable {σ : Type} {n : Nat} {κ : AnswerKind}

/-- Whether a member can go on now. -/
def canMove (crew : Crew n) (w : World σ n) (m : Member n κ) : Bool :=
  match m.stage with
  | .ready _ => true
  | .calling _ due _ _ => isDue w.now due
  | .resting due _ => due ≤ w.now
  | .queued _ => w.hasFocus crew m.who
  | .ended _ => false

/-- When a member can go on by itself. -/
def wakeAt (m : Member n κ) : Option Nat :=
  match m.stage with
  | .calling _ due _ _ => due
  | .resting due _ => some due
  | _ => none

/-- The chain of a member has come to its end: it gives up the input focus. -/
def finish (w : World σ n) (m : Member n κ) (r : Except Fault κ.Answer) : Member n κ × World σ n :=
  ({ m with stage := .ended r }, w.release m.who)

/-- A member makes a call. -/
def call [ClientModel σ] (crew : Crew n) (w : World σ n) (who : Fin n) {ι : AnswerKind} (c : Call ι)
    (next : ι.Answer → Chain κ) : Member n κ × World σ n :=
  let (reply, w') := w.call crew who c
  (⟨who, .calling c (reply.due w.now) reply.result next⟩, w')

/-- A member that can go on does one thing. -/
def move [ClientModel σ] (crew : Crew n) (w : World σ n) (m : Member n κ) :
    Member n κ × World σ n :=
  match m.stage with
  | .ready (.done a) => m.finish w (.ok a)
  | .ready (.fail f) => m.finish w (.error f)
  | .ready (.call c next) => call crew w m.who c next
  | .ready (.rest ms next) => (⟨m.who, .resting (w.now + ms) next⟩, w)
  | .ready (.focus next) => (⟨m.who, .queued next⟩, w.claim m.who)
  | .ready (.poll c enough every next) =>
    call crew w m.who c fun a => if enough a then next else .rest every (.poll c enough every next)
  | .calling c _ (.ok a) next => (⟨m.who, .ready (next a)⟩, w.answered m.who c a)
  | .calling c _ (.error e) _ =>
    m.finish (w.failed m.who c e) (.error (.client (crew.title m.who) e))
  | .resting _ next => (⟨m.who, .ready next⟩, w)
  | .queued next => (⟨m.who, .ready next⟩, w)
  | .ended _ => (m, w)

/-- A member is given up: its call is dropped, and so is its claim on the input focus. -/
def drop (w : World σ n) (m : Member n κ) : World σ n :=
  let w := match m.stage with
    | .calling c _ _ _ => w.dropped m.who c
    | _ => w
  w.release m.who

end Member

/-- The members of a group in order, and the place of the one looked at last. -/
structure Group (n : Nat) (κ : AnswerKind) where
  members : List (Member n κ)
  cursor : Nat

namespace Group

variable {σ : Type} {n : Nat} {κ : AnswerKind}

/-- A group that is about to begin. -/
def ofChains (chains : List (Fin n × Chain κ)) : Group n κ :=
  ⟨chains.map fun (who, c) => ⟨who, .ready c⟩, 0⟩

/-- The most members of a small group. -/
def smallSize : Nat := 30

/-- The results of some members, in order: a failure counts if all before it have ended well. -/
def collect : List (Member n κ) → Option (Except Fault (List κ.Answer))
  | [] => some (.ok [])
  | m :: rest =>
    match m.stage with
    | .ended (.error f) => some (.error f)
    | .ended (.ok a) => (collect rest).map fun r => r.map (a :: ·)
    | _ => none

/-- The first failure among some members. -/
def failure? : List (Member n κ) → Option Fault
  | [] => none
  | m :: rest =>
    match m.stage with
    | .ended (.error f) => some f
    | _ => failure? rest

/-- The result of a group, once it has one. -/
def verdict (g : Group n κ) : Option (Except Fault (List κ.Answer)) :=
  if g.members.length ≤ smallSize then
    match failure? g.members with
    | some f => some (.error f)
    | none => collect g.members
  else collect g.members

/-- The place of the first member that can go on, from a place on. -/
def firstFrom (crew : Crew n) (w : World σ n) (start : Nat) (members : List (Member n κ)) :
    Option Nat :=
  ((members.drop start).findIdx? (·.canMove crew w)).map (start + ·)

/-- The place of the member whose turn it is: the first that can go on, from the cursor on, or else
from the beginning. -/
def next? (crew : Crew n) (w : World σ n) (g : Group n κ) : Option Nat :=
  (firstFrom crew w g.cursor g.members).or (firstFrom crew w 0 g.members)

/-- When a member can go on by itself, if nobody can now. -/
def wakeAt (g : Group n κ) : Option Nat :=
  g.members.foldr (fun m t => earlier m.wakeAt t) none

/-- The member at a place does one thing. -/
def move [ClientModel σ] (crew : Crew n) (w : World σ n) (g : Group n κ) (i : Nat) :
    Group n κ × World σ n :=
  match g.members[i]? with
  | none => (g, w)
  | some m =>
    let (m, w) := m.move crew w
    (⟨g.members.set i m, i⟩, w)

/-- All members are given up, in order. -/
def drop (w : World σ n) (members : List (Member n κ)) : World σ n := members.foldl Member.drop w

end Group

end BotScript
