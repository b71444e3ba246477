/-
A run of the command line: from arguments, environment and files to the two outputs, the files and
the exit code.
-/
import GeoPattern.App
import GeoPattern.CommandLine.Arguments

namespace GeoPattern

namespace CommandLine

/-- What a run leaves behind. It ends with an exit code, or abnormally with a problem that is not
reported to the user. -/
structure Run where
  output : Text
  errors : Text
  tree : FileTree
  ending : Except Problem Nat

/-- The usage is shown with an exit code, or the command runs. -/
inductive Outcome where
  | usage (code : Nat)
  | run (run : Run)

/-- A component on the output line; a dash stands for an absent one. -/
def componentText : Option Double → Text
  | none => ['-']
  | some x => x.text

/-- The output line of a parsed location. -/
def locationLine (location : Location) : Text :=
  componentText location.latitude ++ .char ' ' :: componentText location.longitude ++ .char ' ' ::
    componentText location.elevation

/-- Carries a command out: its output line, and the records it leaves. -/
def perform (app : App) : Command → Except Problem Text × List LogRecord
  | .format latitude longitude elevation =>
    let (result, records) := app.format latitude longitude elevation
    (result.mapError .format, records)
  | .parse text =>
    let (result, records) := app.parse text
    ((result.map locationLine).mapError .read, records)

/-- Runs a command. Log lines bear the given stamp. -/
def execute (stamp : Text) (tree : FileTree) (env : Environment) (invocation : Invocation) : Run :=
  let start := App.start tree env invocation.config invocation.pattern
  let (result, records) : Except Problem Text × List LogRecord := match start.result with
    | .error problem => (.error problem, [])
    | .ok app => perform app invocation.command
  let records := start.records ++ records
  let log := match start.logger with
    | some logger => logger.consoleText stamp records
    | none => []
  let tree := match start.logger with
    | some logger => logger.writeFile stamp records start.tree
    | none => start.tree
  match result with
  | .ok line => ⟨line ++ [.char '\n'], log, tree, .ok 0⟩
  | .error problem =>
    if problem.isReported then
      ⟨[], log ++ Text.lit "location-format: " ++ problem.message ++ [.char '\n'], tree, .ok 1⟩
    else ⟨[], log, tree, .error problem⟩

/-- Runs the command line. -/
def run (stamp : Text) (tree : FileTree) (env : Environment) (arguments : List Text) : Outcome :=
  match invocation arguments with
  | .error .requested => .usage 0
  | .error .refused => .usage 2
  | .ok invocation => .run (execute stamp tree env invocation)

end CommandLine

end GeoPattern
