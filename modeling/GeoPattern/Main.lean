/-
The program: arguments, environment and the settings file are read, and the outcome of the run is
written out.
-/
import GeoPattern.CommandLine.Run

namespace GeoPattern

namespace CommandLine

/-- What is shown when the arguments make no sense, or on request. -/
def usageText : String :=
  "usage: location-format [-h] [--config CONFIG] [--pattern PATTERN] \x7bformat,parse\x7d ...\n"

/-- The value of an environment variable of the program. -/
def environmentValue (name : String) : IO (Option Text) := do
  return (← IO.getEnv ("LOCATION_FORMAT_" ++ name)).map Text.lit

def readEnvironment : IO Environment := do
  return ⟨← environmentValue "CONFIG", ← environmentValue "PATTERN", ← environmentValue "LOG_LEVEL",
    ← environmentValue "LOG_FILE"⟩

/-- The settings file of a run, as the only file that is known. -/
def readFiles (file : Text) : IO FileTree := do
  let home := Text.lit (← IO.currentDir).toString
  try
    let content ← IO.FS.readFile (Text.toString file)
    return ⟨home, [((Path.ofText file).place, Text.lit content)], []⟩
  catch _ => return ⟨home, [], []⟩

/-- Appends to a log file and makes its directory if that is missing. -/
def appendFile (place : List Text) (content : Text) : IO Unit := do
  let name (steps : List Text) := Text.toString (List.intercalate (Text.lit "/") steps)
  if place.length > 1 then IO.FS.createDirAll (name place.dropLast)
  let handle ← IO.FS.Handle.mk (name place) .append
  handle.putStr (Text.toString content)

/-- The files that a run has added. -/
def addedFiles (before after : FileTree) : List (List Text × Text) :=
  after.files.filter fun (place, _) => (before.content? place).isNone

/-- Runs the program and gives its exit code. -/
def runProgram (arguments : List String) : IO UInt32 := do
  let env ← readEnvironment
  let arguments := arguments.map Text.lit
  let named := match invocation arguments with
    | .ok i => i.config
    | .error _ => none
  let tree ← readFiles (Settings.fileName named env)
  let stamp := signedDigits (← IO.monoMsNow)
  match run stamp tree env arguments with
  | .usage 0 => IO.print usageText; return 0
  | .usage code => IO.eprint usageText; return code.toUInt32
  | .run r =>
    IO.print (Text.toString r.output)
    IO.eprint (Text.toString r.errors)
    for (place, content) in addedFiles tree r.tree do
      appendFile place content
    match r.ending with
    | .ok code => return code.toUInt32
    | .error _ => return 1

end CommandLine

end GeoPattern

def main (arguments : List String) : IO UInt32 :=
  GeoPattern.CommandLine.runProgram arguments
