import BotScript.Activity.Group

/-!
# Running an activity

An activity goes as far as it can at an instant, then time passes to the next instant at which it
can go on. Wherever it waits it may be stopped from outside, which drops all calls it waits for;
also where the wait takes no time, as a call that is answered at once may let others go first.

## Main definitions

* `Running`: an activity on its way.
* `Running.advance`: it does one thing, comes to its end, or has to wait.
* `Running.drop`: it is given up.
* `Cue`, `Alarm`: when an activity is stopped from outside.
* `Running.run`: it is run to its end, or until it is stopped.
-/

namespace BotScript

/-- Where an activity stands. -/
inductive Phase (n : Nat) (α : Type) where
  /-- It can go on. -/
  | going (a : Activity n α)
  /-- It waits for a call, which comes to its end when it is due, if ever. -/
  | asking (who : Fin n) {κ : AnswerKind} (c : Call κ) (due : Option Nat)
      (result : Except ClientError κ.Answer) (next : κ.Answer → Activity n α)
  | pausing (due : Nat) (next : Activity n α)
  | grouped {κ : AnswerKind} (g : Group n κ) (next : List κ.Answer → Activity n α)

/-- An activity on its way, with the actions it has started and not yet waited for. -/
structure Running (n : Nat) (α : Type) where
  launched : List (Member n .nothing)
  phase : Phase n α

/-- What comes of letting an activity do one thing. -/
inductive Advance (σ : Type) (n : Nat) (α : Type) where
  | moved (w : World σ n) (r : Running n α)
  | ended (w : World σ n) (r : Except Fault α)
  /-- Nothing can be done before a time, if ever. -/
  | waits (till : Option Nat)

namespace Running

variable {σ : Type} {n : Nat} {α : Type}

/-- An activity that is about to begin. -/
def ofActivity (a : Activity n α) : Running n α := ⟨[], .going a⟩

/-- An activity is given up: all calls it waits for are dropped. -/
def drop (w : World σ n) (r : Running n α) : World σ n :=
  let w := Group.drop w r.launched
  match r.phase with
  | .asking who c _ _ _ => w.dropped who c
  | .grouped g _ => Group.drop w g.members
  | _ => w

/-- An activity comes to its end. -/
def finish (w : World σ n) (r : Running n α) (result : Except Fault α) : Advance σ n α :=
  .ended (r.drop w) result

/-- An activity does one thing, if it can at this instant. -/
def advance [ClientModel σ] (crew : Crew n) (w : World σ n) (r : Running n α) : Advance σ n α :=
  match r.phase with
  | .going (.done a) => r.finish w (.ok a)
  | .going (.fail f) => r.finish w (.error f)
  | .going (.ask who c next) =>
    let (reply, w') := w.call crew who c
    .moved w' { r with phase := .asking who c (reply.due w.now) reply.result next }
  | .going (.pause ms next) => .moved w { r with phase := .pausing (w.now + ms) next }
  | .going (.launch who c next) =>
    let (reply, w') := w.call crew who c
    let m : Member n .nothing := ⟨who, .calling c (reply.due w.now) reply.result .done⟩
    .moved w' ⟨r.launched ++ [m], .going next⟩
  | .going (.join next) => .moved w ⟨[], .grouped ⟨r.launched, 0⟩ fun _ => next⟩
  | .going (.gather chains next) =>
    .moved w { r with phase := .grouped (Group.ofChains chains) next }
  | .asking who c due result next =>
    if isDue w.now due then
      match result with
      | .ok a => .moved (w.answered who c a) { r with phase := .going (next a) }
      | .error e =>
        .ended (Group.drop (w.failed who c e) r.launched) (.error (.client (crew.title who) e))
    else .waits due
  | .pausing due next =>
    if due ≤ w.now then .moved w { r with phase := .going next } else .waits (some due)
  | .grouped g next =>
    match g.verdict with
    | some (.ok results) => .moved w { r with phase := .going (next results) }
    | some (.error f) => r.finish w (.error f)
    | none =>
      match g.next? crew w with
      | some i =>
        let (g, w) := g.move crew w i
        .moved w { r with phase := .grouped g next }
      | none => .waits g.wakeAt

/-- Whether an activity waits for something, be it due or not. Between two waits it
cannot be stopped. -/
def waits (r : Running n α) : Bool :=
  match r.phase with
  | .going _ => false
  | _ => true

/-- An activity that waited goes on: the members of a group are looked at from the first one on. -/
def wake (r : Running n α) : Running n α :=
  match r.phase with
  | .grouped g next => { r with phase := .grouped { g with cursor := 0 } next }
  | _ => r

end Running

/-- When an activity is cancelled: at a time, before it can do anything else at that time; after a
number of its small steps, as soon as it waits; or after a number of lines that are written before
it begins. Whatever comes first counts. -/
structure Cue where
  time : Option Nat
  moves : Option Nat
  lines : Option Nat

/-- When an activity is stopped from outside. It expires at a time after it has done all
it can at that time. -/
structure Alarm where
  cancel : Option Cue
  expire : Option Nat

/-- What stops an activity that waits. -/
inductive Bell where
  /-- It goes on at a time. -/
  | wake (t : Nat)
  | cancel (t : Nat)
  | expire (t : Nat)
  /-- It waits for ever. -/
  | never

namespace Alarm

/-- What happens first to an activity that waits till a time. -/
def bell (alarm : Alarm) (till : Option Nat) : Bell :=
  match alarm.cancel.bind Cue.time, alarm.expire, till with
  | some c, some e, t => if c ≤ e ∧ t.all (c ≤ ·) then .cancel c else late e t
  | some c, none, t => if t.all (c ≤ ·) then .cancel c else wakeAt t
  | none, some e, t => late e t
  | none, none, t => wakeAt t
where
  /-- It wakes, unless it expires before. -/
  late (e : Nat) : Option Nat → Bell
    | some t => if t ≤ e then .wake t else .expire e
    | none => .expire e
  /-- It wakes, if ever. -/
  wakeAt : Option Nat → Bell
    | some t => .wake t
    | none => .never

/-- Whether an activity that waits is cancelled, be it due or not. -/
def hasRung (alarm : Alarm) : Bool :=
  alarm.cancel.any fun cue => cue.moves == some 0 || cue.lines == some 0

/-- The alarm after a small step. -/
def moved (alarm : Alarm) : Alarm :=
  { alarm with cancel := alarm.cancel.map fun cue => { cue with moves := cue.moves.map (· - 1) } }

/-- The alarm after a line. -/
def wrote (alarm : Alarm) : Alarm :=
  { alarm with cancel := alarm.cancel.map fun cue => { cue with lines := cue.lines.map (· - 1) } }

end Alarm

/-- How a run of an activity ends. -/
inductive Outcome (σ : Type) (n : Nat) (α : Type) where
  | ended (w : World σ n) (r : Except Fault α)
  | cancelled (w : World σ n)
  | expired (w : World σ n)
  /-- It waits for something that never comes. -/
  | never (w : World σ n)
  /-- It has not come to its end so far. -/
  | outOfFuel (w : World σ n)

/-- Run an activity to its end, or until it is stopped. -/
def Running.run {σ : Type} {n : Nat} {α : Type} [ClientModel σ] (crew : Crew n) :
    Alarm → Nat → World σ n → Running n α → Outcome σ n α
  | _, 0, w, _ => .outOfFuel w
  | alarm, fuel + 1, w, r =>
    if r.waits && alarm.hasRung then .cancelled (r.drop w)
    else
      match r.advance crew w with
      | .moved w r => run crew alarm.moved fuel w r
      | .ended w result => .ended w result
      | .waits till =>
        match alarm.bell till with
        | .wake t => run crew alarm.moved fuel (w.atTime t) r.wake
        | .cancel t => .cancelled (r.drop (w.atTime t))
        | .expire t => .expired (r.drop (w.atTime t))
        | .never => .never w

/-- Run an activity to its end, or until it is stopped. -/
def Activity.run {σ : Type} {n : Nat} {α : Type} [ClientModel σ] (crew : Crew n) (alarm : Alarm)
    (fuel : Nat) (w : World σ n) (a : Activity n α) : Outcome σ n α :=
  (Running.ofActivity a).run crew alarm fuel w

end BotScript
