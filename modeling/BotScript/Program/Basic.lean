import BotScript.Program.Instruction
import BotScript.Text.Digest

/-!
# Programs

A program is a list of instructions. A jump may go to any instruction, or right behind the last one;
a call goes to the nearest label of its name above it.

## Main definitions

* `Program`: a list of instructions.
* `Program.jumpTarget?`, `Program.labelBefore?`: where jumps and calls go.
* `Program.check`: every jump and every call of the program goes somewhere.
* `Program.listing`, `Program.fingerprint`: the text of a program, and what identifies it in logs.
-/

namespace BotScript

/-- Why there is no program for a script, or a program is not sound. -/
inductive CompileError where
  | unsupported (command : String)
  | jumpOutOfRange (place : Nat) (offset : Int64) (length : Nat)
  | unresolvedLabel (place : Nat) (label : String)
  | tooLarge
  deriving DecidableEq

/-- The message about a jump that leaves the program. -/
def jumpMessage (place : Nat) (offset : Int64) (length : Nat) : String :=
  "jump at " ++ toString place ++ " with offset " ++ toString offset.toInt ++
    " leaves the program (length " ++ toString length ++ ")"

/-- The message of an error. -/
def CompileError.message : CompileError → String
  | unsupported command => "unimplemented command: " ++ command
  | jumpOutOfRange place offset length => jumpMessage place offset length
  | unresolvedLabel place label =>
    "call at " ++ toString place ++ " has no label `" ++ label ++ "` above it"
  | tooLarge => "program too large for relative jumps"

/-- A list of instructions. -/
structure Program where
  code : List Instruction

namespace Program

/-- The program without instructions. -/
def empty : Program := ⟨[]⟩

/-- How many instructions there are. -/
def length (p : Program) : Nat := p.code.length

/-- Where a jump goes: an instruction, or right behind the last one. -/
def jumpTarget? (p : Program) (place : Nat) (offset : Int64) : Option Nat :=
  let target := Int.ofNat place + offset.toInt
  if 0 ≤ target ∧ target ≤ p.length then some target.toNat else none

/-- The place of the last element for which a test holds. -/
def lastPlace? {α : Type} (test : α → Bool) : List α → Option Nat
  | [] => none
  | a :: rest =>
    match lastPlace? test rest with
    | some i => some (i + 1)
    | none => if test a then some 0 else none

/-- Whether an instruction is the label of this name. -/
def isLabel (name : String) : Instruction → Bool
  | .label other => other == name
  | _ => false

/-- The nearest label of this name above a place. -/
def labelBefore? (p : Program) (place : Nat) (name : String) : Option Nat :=
  lastPlace? (isLabel name) (p.code.take place)

/-- Check the jump or the call at a place. -/
def checkAt (p : Program) (place : Nat) (i : Instruction) : Except CompileError Unit := do
  if let some offset := i.offset? then
    if (p.jumpTarget? place offset).isNone then
      throw (.jumpOutOfRange place offset p.length)
  if let .call name := i then
    if (p.labelBefore? place name).isNone then
      throw (.unresolvedLabel place name)

/-- Check the instructions from a place on. -/
def checkFrom (p : Program) : Nat → List Instruction → Except CompileError Unit
  | _, [] => .ok ()
  | place, i :: rest => do
    p.checkAt place i
    p.checkFrom (place + 1) rest

/-- Check that every jump stays in the program and every call has a label above it; the first that
does not is reported. -/
def check (p : Program) : Except CompileError Unit := p.checkFrom 0 p.code

/-- A number with at least four digits. -/
def fourDigits (n : Nat) : String :=
  let digits := toString n
  Number.zeros (4 - digits.length) ++ digits

/-- The lines of some instructions, numbered from a place on. -/
def listingFrom : Nat → List Instruction → String
  | _, [] => ""
  | place, i :: rest => fourDigits place ++ " " ++ i.render ++ "\n" ++ listingFrom (place + 1) rest

/-- The text of a program: a numbered line for each instruction. -/
def listing (p : Program) : String := listingFrom 0 p.code

/-- The text that identifies a program: the line of each instruction. -/
def identity (p : Program) : String := String.join (p.code.map fun i => i.render ++ "\n")

/-- The digest of the text that identifies a program. -/
def fingerprint (p : Program) : String := Text.Digest.sha256Hex p.identity

/-- How many instructions are of a kind. -/
def countKind (p : Program) (kind : String) : Nat := p.code.countP (·.kind == kind)

/-- The stored form of a program. -/
def toJson (p : Program) : Json := .arr (p.code.map Instruction.toJson)

/-- Read a program. -/
def ofJson? (j : Json) : Option Program := (Json.list? Instruction.ofJson? j).map Program.mk

end Program

end BotScript
