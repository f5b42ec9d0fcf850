import BotScript.Machine.Fault

/-!
# Activities

An activity is what an instruction does, as a tree of calls: what is done next depends on the
answers so far. Part of an activity may be a group of chains, one for each of several clients, that
run side by side.

## Main definitions

* `Chain`: what is done with one client of a group.
* `Activity`: what an instruction does.
-/

namespace BotScript

/-- What is done with one client of a group, with a result of some kind. -/
inductive Chain (κ : AnswerKind) where
  | done (result : κ.Answer)
  | fail (f : Fault)
  | call {ι : AnswerKind} (c : Call ι) (next : ι.Answer → Chain κ)
  /-- Wait for some milliseconds. -/
  | rest (ms : Nat) (next : Chain κ)
  /-- Wait for the input focus; it is kept to the end of the chain. -/
  | focus (next : Chain κ)
  /-- Ask until an answer is good enough, with some milliseconds of rest after each that is not. -/
  | poll {ι : AnswerKind} (c : Call ι) (enough : ι.Answer → Bool) (every : Nat) (next : Chain κ)

/-- A chain that makes one call. -/
def Chain.once {κ : AnswerKind} (c : Call κ) : Chain κ := .call c .done

/-- What an instruction does, with a result of some type. -/
inductive Activity (n : Nat) (α : Type) where
  | done (result : α)
  | fail (f : Fault)
  /-- Call a client and wait for the answer. -/
  | ask (who : Fin n) {κ : AnswerKind} (c : Call κ) (next : κ.Answer → Activity n α)
  /-- Wait for some milliseconds. -/
  | pause (ms : Nat) (next : Activity n α)
  /-- Start an action without waiting for it. -/
  | launch (who : Fin n) (c : Call .nothing) (next : Activity n α)
  /-- Wait for all actions that were started. -/
  | join (next : Activity n α)
  /-- Run a chain for each of some clients side by side, and wait for all results. -/
  | gather {κ : AnswerKind} (chains : List (Fin n × Chain κ))
      (next : List κ.Answer → Activity n α)

namespace Activity

variable {n : Nat} {α β : Type}

/-- One activity after the other. -/
def bind : Activity n α → (α → Activity n β) → Activity n β
  | done a, f => f a
  | fail e, _ => fail e
  | ask who c next, f => ask who c fun a => (next a).bind f
  | pause ms next, f => pause ms (next.bind f)
  | launch who c next, f => launch who c (next.bind f)
  | join next, f => join (next.bind f)
  | gather chains next, f => gather chains fun as => (next as).bind f

instance : Monad (Activity n) where
  pure := done
  bind := bind

/-- Ask a client. -/
def query (who : Fin n) {κ : AnswerKind} (c : Call κ) : Activity n κ.Answer := ask who c done

/-- Start an action of a client. -/
def start (who : Fin n) (c : Call .nothing) : Activity n Unit := launch who c (done ())

/-- Wait for all actions that were started. -/
def joined : Activity n Unit := join (done ())

/-- Wait for some milliseconds. -/
def sleep (ms : Nat) : Activity n Unit := pause ms (done ())

/-- Run chains side by side. -/
def together {κ : AnswerKind} (chains : List (Fin n × Chain κ)) : Activity n (List κ.Answer) :=
  gather chains done

/-- Go through some elements in order. -/
def forEach {ι : Type} (visit : ι → Activity n Unit) : List ι → Activity n Unit
  | [] => done ()
  | i :: rest => (visit i).bind fun _ => forEach visit rest

end Activity

end BotScript
