import BotScript.Program.Basic
import BotScript.Script.Statement

/-!
# From scripts to programs

Each statement becomes a piece of code that runs from its first instruction to behind its last one.

```
block      jump B+3; label; body; ret; nop
branch     jump_if test, F+2; no; jump T+1; yes; nop
while      jump_ifn test, B+2; body; jump_if test, -B; nop
until      enter_until test, B+2; body; jump -B; nop
loop       body; jump -B
call       call; nop
```

`B`, `F`, `T` are the lengths of the pieces for the body and the two branches. Offsets are words of
64 bits, so a piece too long for them cannot be jumped over.

## Main definitions

* `Command.code`, `Statement.code`: the code of a command and of a statement.
* `Script.compile`: the program of a script, if it has one.
-/

namespace BotScript

/-- A length as an offset. -/
def offsetOf (n : Nat) : Except CompileError Int64 :=
  if n < UInt64.size / 2 then .ok (Int64.ofNat n) else .error .tooLarge

/-- The code of an action. A wait with completion is two waits: one without completion
comes first. -/
def Action.code (who : Selector) : Action → List Instruction
  | .waitFor ⟨kind, true⟩ => [.act who (.waitFor ⟨kind, false⟩), .act who (.waitFor ⟨kind, true⟩)]
  | a => [.act who a]

/-- The code of a command. -/
def Command.code (c : Command) : Except CompileError (List Instruction) :=
  match c.kind with
  | .kill => .ok [.kill]
  | .sleep duration => .ok [.sleep duration]
  | .log (.literal tokens) => .ok [.logLiteral tokens]
  | .log (.window path) => .ok [.logWindow c.who path]
  | .act a => .ok (a.code c.who)
  | .loadPlaystyle text => .ok [.loadPlaystyle c.who text]
  | .expr p => .error (.unsupported (CommandKind.expr p).name)

mutual

/-- The code of a statement. -/
def Statement.code : Statement → Except CompileError (List Instruction)
  | .list body => codeAll body
  | .command c => c.code
  | .block name body => do
    let body ← codeAll body
    return .jump (← offsetOf (body.length + 3)) :: .label name :: body ++ [.ret, .nop]
  | .branch test yes no => do
    let no ← codeAll no
    let yes ← codeAll yes
    let toYes ← offsetOf (no.length + 2)
    let toEnd ← offsetOf (yes.length + 1)
    return .jumpIf test toYes :: no ++ .jump toEnd :: yes ++ [.nop]
  | .whileLoop test body => do
    let body ← codeAll body
    let back ← offsetOf body.length
    let toEnd ← offsetOf (body.length + 2)
    return .jumpIfNot test toEnd :: body ++ [.jumpIf test (-back), .nop]
  | .untilLoop test body => do
    let body ← codeAll body
    let back ← offsetOf body.length
    let toEnd ← offsetOf (body.length + 2)
    return .enterUntil test toEnd :: body ++ [.jump (-back), .nop]
  | .loop body => do
    let body ← codeAll body
    let back ← offsetOf body.length
    return body ++ [.jump (-back)]
  | .call name => .ok [.call name, .nop]
  | .assign name value => .ok [.assign name value]
  | .decrement name => .ok [.decrement name]

/-- The code of some statements, one after the other. -/
def Statement.codeAll : List Statement → Except CompileError (List Instruction)
  | [] => .ok []
  | s :: rest => do
    let first ← s.code
    let others ← codeAll rest
    return first ++ others

end

/-- The program of a script, with every jump and call checked. -/
def Script.compile (s : Script) : Except CompileError Program := do
  let p := Program.mk (← Statement.codeAll s)
  p.check
  return p

end BotScript
