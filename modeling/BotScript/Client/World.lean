import BotScript.Client.Call

/-!
# Clients, their clock and their journal

Clients answer calls, each in its own time. The world holds what they are up to, the clock, who
asked for the input focus, and a journal of everything that happened.

Some actions need the input focus, which several clients may share. A client asks for it by a claim;
claims are served in the order they were made, so the first claim on a focus is the one that has it.

## Main definitions

* `ClientModel`: how a client in some state replies to a call.
* `Crew`: the clients of a run.
* `World`: the state of the world.
* `World.call`, `World.answered`, `World.failed`, `World.dropped`: a call is made and
  comes to its end.
* `World.claim`, `World.hasFocus`, `World.release`: the input focus.
-/

namespace BotScript

/-- The reply to a call: how many milliseconds it takes, for ever if there is no such number, and
what comes of it. -/
structure Reply (κ : AnswerKind) where
  delay : Option Nat
  result : Except ClientError κ.Answer

/-- How a client replies to a call at a time, and the state it is in afterwards. -/
class ClientModel (σ : Type) where
  reply : {κ : AnswerKind} → Nat → Call κ → σ → Reply κ × σ

/-- What is known of a client. Clients with the same `focus` share the input focus. -/
structure Handle where
  title : String
  focus : Option Nat
  deriving DecidableEq

/-- The clients of a run. -/
abbrev Crew (n : Nat) := Vector Handle n

namespace Crew

variable {n : Nat}

/-- The title of a client. -/
def title (crew : Crew n) (i : Fin n) : String := (crew.get i).title

/-- Whether two clients have one input focus. -/
def sameFocus (crew : Crew n) (i j : Fin n) : Bool :=
  i == j || ((crew.get i).focus.isSome && (crew.get i).focus == (crew.get j).focus)

end Crew

/-- Something that happened. Every call that was made is answered, fails or is dropped. -/
inductive Event (n : Nat) where
  /-- A call was made; `held` tells whether someone had the input focus of the client. -/
  | made (time : Nat) (who : Fin n) {κ : AnswerKind} (c : Call κ) (held : Bool)
  | answered (time : Nat) (who : Fin n) {κ : AnswerKind} (c : Call κ) (answer : κ.Answer)
  | failed (time : Nat) (who : Fin n) {κ : AnswerKind} (c : Call κ) (e : ClientError)
  | dropped (time : Nat) (who : Fin n) {κ : AnswerKind} (c : Call κ)
  /-- The script wrote a line. -/
  | line (text : String)

/-- The state of the world. The journal has the newest event first. -/
structure World (σ : Type) (n : Nat) where
  now : Nat
  clients : Vector σ n
  claims : List (Fin n)
  journal : List (Event n)

namespace World

variable {σ : Type} {n : Nat}

/-- The world before anything happened. -/
def initial (clients : Vector σ n) : World σ n := ⟨0, clients, [], []⟩

/-- Write an event down. -/
def record (w : World σ n) (e : Event n) : World σ n := { w with journal := e :: w.journal }

/-- The world at a later time. The clock never goes back. -/
def atTime (w : World σ n) (t : Nat) : World σ n := { w with now := max w.now t }

/-- What happened, oldest first. -/
def history (w : World σ n) : List (Event n) := w.journal.reverse

/-- The world with an empty journal. -/
def forget (w : World σ n) : World σ n := { w with journal := [] }

/-! ### The input focus -/

/-- Whether some client claims the input focus of a client. -/
def focusHeld (crew : Crew n) (w : World σ n) (i : Fin n) : Bool :=
  w.claims.any (crew.sameFocus i)

/-- Whether a client has the input focus: of the claims on it, its own is the first. -/
def hasFocus (crew : Crew n) (w : World σ n) (i : Fin n) : Bool :=
  w.claims.find? (crew.sameFocus i) == some i

/-- A client asks for the input focus. -/
def claim (w : World σ n) (i : Fin n) : World σ n := { w with claims := w.claims ++ [i] }

/-- A client gives up the input focus, or no longer asks for it. -/
def release (w : World σ n) (i : Fin n) : World σ n :=
  { w with claims := w.claims.filter (· != i) }

/-! ### Calls -/

/-- Make a call. -/
def call [ClientModel σ] (crew : Crew n) (w : World σ n) (i : Fin n) {κ : AnswerKind} (c : Call κ) :
    Reply κ × World σ n :=
  let (reply, s) := ClientModel.reply w.now c (w.clients.get i)
  let held := w.focusHeld crew i
  (reply, { w with clients := w.clients.set i.val s i.isLt }.record (.made w.now i c held))

/-- A call is answered. -/
def answered (w : World σ n) (i : Fin n) {κ : AnswerKind} (c : Call κ) (a : κ.Answer) : World σ n :=
  w.record (.answered w.now i c a)

/-- A call fails. -/
def failed (w : World σ n) (i : Fin n) {κ : AnswerKind} (c : Call κ) (e : ClientError) :
    World σ n :=
  w.record (.failed w.now i c e)

/-- A call is dropped before its end. -/
def dropped (w : World σ n) (i : Fin n) {κ : AnswerKind} (c : Call κ) : World σ n :=
  w.record (.dropped w.now i c)

/-- Write lines of the script down. -/
def log (w : World σ n) (lines : List String) : World σ n :=
  lines.foldl (fun w line => w.record (.line line)) w

end World

/-- The line of an event in the journal: when, who, what, and how the call went. -/
def Event.render {n : Nat} (crew : Crew n) : Event n → String
  | made time who c held =>
    let detail := match c with
      | .toFriend f => f.render ++ if held then " held" else " free"
      | c => c.detail
    stamp time who c.name ">" detail
  | @answered _ time who κ c answer => stamp time who c.name "=" (κ.renderAnswer answer)
  | failed time who c _ => stamp time who c.name "!" ""
  | dropped time who c => stamp time who c.name "x" ""
  | line text => text
where
  /-- A line, in which an empty detail leaves no space. -/
  stamp (time : Nat) (who : Fin n) (name mark detail : String) : String :=
    toString time ++ " " ++ crew.title who ++ " " ++ name ++ " " ++ mark ++
      if detail.isEmpty then "" else " " ++ detail

end BotScript
