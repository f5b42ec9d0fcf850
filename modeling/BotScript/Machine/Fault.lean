import BotScript.Program.Basic
import BotScript.Client.Call

/-!
# Faults

What can go wrong while a program runs.

## Main definitions

* `Fault`: why an instruction failed.
* `Fault.message`: what is reported.
-/

namespace BotScript

/-- Why an instruction failed. -/
inductive Fault where
  | labelNotFound (name : String)
  /-- A return without a call. -/
  | noCall
  /-- There is no client of this number, counted from one. -/
  | noClient (num count : Nat)
  | jumpOutOfRange (place : Nat) (offset : Int64) (length : Nat)
  | typeMismatch (context expected : String) (found : ValueType)
  | invalidOperand (instruction reason : String)
  | unknownVariable (name : String)
  | windowNotFound (path : String)
  /-- A call to a client failed. -/
  | client (title : String) (e : ClientError)
  deriving DecidableEq

/-- The message of a fault. -/
def Fault.message : Fault → String
  | labelNotFound name => "unable to find label: " ++ name
  | noCall => "ret with an empty call stack"
  | noClient num count =>
    "attempted to get client " ++ toString num ++ ", but only " ++ toString count ++
      " client(s) are open"
  | jumpOutOfRange place offset length => jumpMessage place offset length
  | typeMismatch context expected found =>
    "type error in " ++ context ++ ": expected " ++ expected ++ ", got " ++ found.name
  | invalidOperand instruction reason =>
    "invalid operand for " ++ instruction ++ ": " ++ reason
  | unknownVariable name => "unknown variable: " ++ name
  | windowNotFound path => "unable to find window at path: " ++ path
  | client title e => "client " ++ title ++ ": " ++ e.message

end BotScript
