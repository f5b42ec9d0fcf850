import BotScript.Activity.Run
import BotScript.Client.Scripted
import BotScript.CommandLine.Run
import BotScript.Json.Reader
import BotScript.Json.Writer
import BotScript.Machine.Run
import BotScript.Main
import BotScript.Program.Compile
import BotScript.Proofs.Activity.Answers
import BotScript.Proofs.Activity.Calls
import BotScript.Proofs.Activity.Claims
import BotScript.Proofs.Activity.Endings
import BotScript.Proofs.Activity.Focus
import BotScript.Proofs.Activity.Inquiry
import BotScript.Proofs.Activity.Lasting
import BotScript.Proofs.Activity.Performed
import BotScript.Proofs.Activity.PollFailure
import BotScript.Proofs.Activity.PollOutcome
import BotScript.Proofs.Activity.Polling
import BotScript.Proofs.Activity.Transcript
import BotScript.Proofs.Activity.Turns
import BotScript.Proofs.Activity.Zones
import BotScript.Proofs.CommandLine.LimitedRuns
import BotScript.Proofs.Json.Record
import BotScript.Proofs.Machine.Actions
import BotScript.Proofs.Machine.Deeds
import BotScript.Proofs.Machine.DrySteps
import BotScript.Proofs.Machine.FanOut
import BotScript.Proofs.Machine.Focus
import BotScript.Proofs.Machine.Killed
import BotScript.Proofs.Machine.Range
import BotScript.Proofs.Machine.Returns
import BotScript.Proofs.Machine.Settlement
import BotScript.Proofs.Machine.SplitWait
import BotScript.Proofs.Machine.Tally
import BotScript.Proofs.Machine.Typing
import BotScript.Proofs.Machine.Waiting
import BotScript.Proofs.Machine.ZoneChange
import BotScript.Proofs.Number.Doubles
import BotScript.Proofs.Number.Layout
import BotScript.Proofs.Number.Shortest
import BotScript.Proofs.Program.Acceptance
import BotScript.Proofs.Program.Blocks
import BotScript.Proofs.Program.Brackets
import BotScript.Proofs.Program.Identity
import BotScript.Proofs.Program.Stored
import BotScript.Proofs.Script.Legible
import BotScript.Proofs.Script.LegibleActions
import BotScript.Proofs.Script.Presentation
import BotScript.Proofs.Script.Simulation
import BotScript.Proofs.Script.Stored
import BotScript.Proofs.Script.Termination
import BotScript.Proofs.Supervisor.Course
import BotScript.Proofs.Supervisor.Ledger
import BotScript.Proofs.Supervisor.Scan
import BotScript.Proofs.Supervisor.Sweep
import BotScript.Proofs.Text.Delimited
import BotScript.Settings.Basic
import BotScript.Supervisor.Timeline
