import BotScript.CommandLine.Run

/-!
# The command line

Reads the files that the arguments name and the environment, carries the command out, and prints
what comes of it.
-/

namespace BotScript.CommandLine

/-- The variables of the environment that are settings. -/
def settingVariables : List String :=
  ["DEIMOS__VM__POLL_INTERVAL_MS", "DEIMOS__SUPERVISOR__TICK_INTERVAL_MS",
    "DEIMOS__LOGGING__FILTER"]

/-- The content of a file, if it can be read. -/
def readText? (path : String) : IO (Option String) := do
  try return some (← IO.FS.readFile path)
  catch _ => return none

/-- The paths that the options name. -/
def Options.paths (o : Options) : List String :=
  let script := match o.task with
    | .compile script _ => script
    | .dryRun script _ _ => script
  [script, o.config.getD usualSettings]

/-- What is shown when help is asked for or the arguments are wrong. -/
def usage : String :=
  "Usage: deimos [--config <CONFIG>] compile <AST> [--json]\n" ++
    "       deimos [--config <CONFIG>] dry-run <AST> " ++
    "[--clients <CLIENTS>] [--max-steps <MAX_STEPS>]\n"

/-- How many small steps a run may take. -/
def runFuel : Nat := 4611686018427387904

end BotScript.CommandLine

open BotScript BotScript.CommandLine

/-- Carry out the command line. Wrong arguments end with 2, and a command that fails with 1. -/
def main (args : List String) : IO UInt32 := do
  match Options.parse args with
  | .error .help => do
    IO.print usage
    return 0
  | .error _ => do
    IO.eprint usage
    return 2
  | .ok options => do
    let files ← options.paths.mapM fun path => do return (path, ← readText? path)
    let environment ← settingVariables.filterMapM fun name => do
      return (← IO.getEnv name).map (name, ·)
    let result := CommandLine.run (fun path => (files.lookup path).join) environment runFuel options
    result.log.forM fun line => IO.eprintln line
    IO.print result.output
    match result.failure with
    | some causes => do
      IO.eprintln ("Error: " ++ ": ".intercalate causes)
      return 1
    | none => return 0
