import BotScript.Number.Reading

/-!
# Arguments

The arguments of the command line: options, a command, and the arguments of the command. Arguments
are taken one by one. An option that is followed by its value is taken in only when the next
argument begins, so a value that is no good is reported after an argument that is not known.

## Main definitions

* `Options`: what the arguments ask for.
* `UsageError`: what is wrong with them, or that help is asked for.
* `Options.parse`: read the arguments.
-/

namespace BotScript.CommandLine

/-- What to do. -/
inductive Task where
  /-- Compile a script and show the program, as a listing or as JSON. -/
  | compile (script : String) (json : Bool)
  /-- Run a script with some clients that do nothing, for a number of instructions at most. -/
  | dryRun (script : String) (clients : UInt64) (maxSteps : Option UInt64)
  deriving DecidableEq, Repr

/-- What the arguments ask for. -/
structure Options where
  config : Option String
  task : Task
  deriving DecidableEq, Repr

/-- What is wrong with the arguments, or that help is asked for. -/
inductive UsageError where
  | help
  /-- There are no arguments, so help is shown. -/
  | nothing
  | missingCommand
  | unknownCommand
  | unknownArgument
  | missingArgument
  /-- An option has no value, or an empty one where that makes no sense. -/
  | missingValue
  | badValue
  | repeated
  /-- A flag is given a value. -/
  | surplusValue
  deriving DecidableEq, Repr

/-- The arguments there are. -/
inductive Key where
  | config
  | json
  | clients
  | maxSteps
  | script
  deriving DecidableEq, Repr

/-- Where an argument stands: before the command, or behind it. -/
inductive Place where
  | top
  | compile
  | dryRun
  deriving DecidableEq, Repr

/-- What an option does. -/
inductive OptionKind where
  | help
  | flag (k : Key)
  | valued (k : Key)

/-- The options of a place, by name. -/
def Place.option? (p : Place) (name : String) : Option OptionKind :=
  match p, name with
  | _, "help" => some .help
  | _, "config" => some (.valued .config)
  | .compile, "json" => some (.flag .json)
  | .dryRun, "clients" => some (.valued .clients)
  | .dryRun, "max-steps" => some (.valued .maxSteps)
  | _, _ => none

/-- A value that makes sense for an argument. -/
def Key.check (k : Key) (value : String) : Except UsageError Unit :=
  match k with
  | .config | .script => if value.isEmpty then .error .missingValue else .ok ()
  | .clients | .maxSteps =>
    if (Number.readWord? value).isNone then .error .badValue else .ok ()
  | .json => .ok ()

/-- How far the arguments of a place have been read. -/
structure Reading where
  /-- The arguments that were taken in. -/
  taken : List (Key × String)
  /-- The argument that is about to be taken in, without its value if that has not come. -/
  pending : Option (Key × Option String)
  /-- The next argument is a value. -/
  awaiting : Bool
  /-- What follows are no options. -/
  plain : Bool

namespace Reading

/-- Before the first argument. -/
def empty : Reading := ⟨[], none, false, false⟩

/-- The value of an argument. -/
def value? (r : Reading) (k : Key) : Option String := r.taken.lookup k

/-- Take an argument in. -/
def take (r : Reading) (k : Key) (value : String) : Except UsageError Reading :=
  if (r.value? k).isSome then .error .repeated
  else do
    k.check value
    return { r with taken := (k, value) :: r.taken }

/-- Take in the argument that is about to be. -/
def settle (r : Reading) : Except UsageError Reading :=
  match r.pending with
  | none => .ok r
  | some (_, none) => .error .missingValue
  | some (k, some value) => { r with pending := none, awaiting := false }.take k value

/-- An option with two dashes, and perhaps with a value after an equals sign. -/
def option (p : Place) (r : Reading) (name : String) (value : Option String) :
    Except UsageError Reading :=
  match p.option? name, value with
  | none, _ => .error .unknownArgument
  | some .help, none => do let _ ← r.settle; .error .help
  | some (.flag k), none => do (← r.settle).take k ""
  | some .help, some _ | some (.flag _), some _ => .error .surplusValue
  | some (.valued k), some v => do (← r.settle).take k v
  | some (.valued k), none => do
    return { ← r.settle with pending := some (k, none), awaiting := true }

/-- A name and a value divided by the first equals sign. -/
def splitValue (s : String) : String × Option String :=
  match s.toList.span (· ≠ '=') with
  | (_, []) => (s, none)
  | (name, _ :: value) => (String.ofList name, some (String.ofList value))

/-- An argument that is neither an option nor the value of one. -/
def positional (p : Place) (r : Reading) (isCommand : Bool) (arg : String) :
    Except UsageError Reading :=
  let given := (r.value? .script).isSome || r.pending.any (·.1 == .script)
  match p with
  | .top => .error (if isCommand then .unknownArgument else .unknownCommand)
  | _ =>
    if given then .error .unknownArgument
    else do return { ← r.settle with pending := some (.script, some arg), awaiting := false }

/-- Read an argument that is no command. -/
def argument (p : Place) (r : Reading) (isCommand : Bool) (arg : String) :
    Except UsageError Reading :=
  if r.plain then r.positional p isCommand arg
  else
    match arg.toList with
    | ['-', '-'] => .ok { r with plain := true }
    | '-' :: '-' :: rest =>
      let (name, value) := splitValue (String.ofList rest)
      r.option p name value
    | '-' :: 'h' :: _ => do let _ ← r.settle; .error .help
    | '-' :: _ :: _ => .error .unknownArgument
    | _ =>
      match r.awaiting, r.pending with
      | true, some (k, _) => .ok { r with pending := some (k, some arg), awaiting := false }
      | _, _ => r.positional p false arg

end Reading

/-- The commands, by name. -/
def command? : String → Option Place
  | "compile" => some .compile
  | "dry-run" => some .dryRun
  | _ => none

/-- Asking for help on commands by name. -/
def helpOn : List String → UsageError
  | [] | ["compile"] | ["dry-run"] | ["help"] => .help
  | _ => .unknownCommand

/-- Read the arguments behind a command. -/
def readAll (p : Place) : Reading → List String → Except UsageError Reading
  | r, [] => r.settle
  | r, arg :: rest => do readAll p (← r.argument p false arg) rest

/-- The word an argument has as its value. -/
def Reading.word? (r : Reading) (k : Key) : Option UInt64 := (r.value? k).bind Number.readWord?

/-- What a command is to do, once its arguments are read. -/
def task (p : Place) (r : Reading) : Except UsageError Task :=
  match p, r.value? .script with
  | .compile, some script => .ok (.compile script (r.value? .json).isSome)
  | .dryRun, some script => .ok (.dryRun script ((r.word? .clients).getD 1) (r.word? .maxSteps))
  | _, _ => .error .missingArgument

/-- Read the arguments from before the command on. An option may stand on either side of the
command; the one behind it wins. -/
def readTop : Reading → List String → Except UsageError Options
  | r, [] => do
    let r ← r.settle
    .error (if r.taken.isEmpty then .nothing else .missingCommand)
  | r, arg :: rest => do
    if r.plain || r.awaiting then
      readTop (← r.argument .top ((command? arg).isSome || arg == "help") arg) rest
    else
      match command? arg with
      | some p =>
        let inner ← readAll p .empty rest
        let task ← task p inner
        let r ← r.settle
        return ⟨(inner.value? .config).or (r.value? .config), task⟩
      | none =>
        if arg == "help" then .error (helpOn rest)
        else readTop (← r.argument .top false arg) rest

/-- Read the arguments. -/
def Options.parse (args : List String) : Except UsageError Options := readTop .empty args

end BotScript.CommandLine
