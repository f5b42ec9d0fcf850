import BotScript.CommandLine.Arguments
import BotScript.CommandLine.DryRun
import BotScript.Json.Reader
import BotScript.Json.Writer
import BotScript.Program.Compile
import BotScript.Settings.Basic

/-!
# Carrying out the command line

What a command prints, what it logs, and what goes wrong, given the files it reads and
the environment.

## Main definitions

* `Result`: what comes of a command.
* `run`: carry out a command.
-/

namespace BotScript.CommandLine

/-- What comes of a command: what is printed, what is logged, and the causes of its failure,
outermost first, if it fails. -/
structure Result where
  output : String
  log : List String
  failure : Option (List String)

/-- A command that failed before it did anything. -/
def refused (causes : List String) : Result := ⟨"", [], some causes⟩

/-- The files there are, by path. -/
abbrev Files := String → Option String

/-- Read and compile a script. -/
def compileFile (files : Files) (path : String) : Except (List String) Program := do
  let some text := files path | throw ["Failed to read " ++ path]
  let some script := (Json.parse? Json.nestingLimit text).bind Script.ofJson?
    | throw ["Failed to parse AST in " ++ path]
  match script.compile with
  | .ok p => return p
  | .error e => throw ["Failed to compile " ++ path, e.message]

/-- The program as it is shown, with its fingerprint. -/
def showProgram (json : Bool) (p : Program) : String :=
  (if json then p.toJson.pretty ++ "\n" else p.listing) ++ "fingerprint: " ++ p.fingerprint ++ "\n"

/-- The causes of a fault, outermost first. -/
def faultCauses : Fault → List String
  | .client title e => [(Fault.client title e).message, e.message]
  | f => [f.message]

/-- What comes of a dry run. -/
def dryRunResult {n : Nat} (f : DryRun.Finished n) : Result :=
  let log := f.world.notices (DryRun.crew n) (fun _ => true) true
  match f.ending with
  | .stopped _ => ⟨f.report, log, none⟩
  | .failed fault =>
    ⟨"", log, some (("Instruction " ++ toString f.machine.ip ++ " failed") :: faultCauses fault)⟩
  | .never | .outOfFuel => ⟨"", log, some ["The run does not end"]⟩

/-- Carry out a task with the settings. -/
def Task.run (settings : Settings) (files : Files) (fuel : Nat) : Task → Result
  | .compile path json =>
    match compileFile files path with
    | .ok p => ⟨showProgram json p, [], none⟩
    | .error causes => refused causes
  | .dryRun path clients maxSteps =>
    match compileFile files path with
    | .ok p =>
      let limit := maxSteps.map UInt64.toNat
      dryRunResult (DryRun.ofProgram clients.toNat settings.poll.toNat limit fuel p)
    | .error causes => refused causes

/-- The settings file that the options name, or else the one at the usual place, if it is there. -/
def settingsFile (files : Files) (usual : String) : Option String → SettingsFile
  | some path => (files path).elim .missing .content
  | none => (files usual).elim .none .content

/-- Where settings are looked for if no file is named. -/
def usualSettings : String := "deimos.toml"

/-- Carry out a command: the settings come first, and nothing is done without them. -/
def run (files : Files) (environment : List (String × String)) (fuel : Nat) (o : Options) :
    Result :=
  match Settings.load (settingsFile files usualSettings o.config) environment with
  | .ok settings => o.task.run settings files fuel
  | .error e => refused ("Failed to load configuration" :: e.message?.toList)

end BotScript.CommandLine
