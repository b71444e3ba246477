/-
The application: settings, a logger and a formatter. Starting it, formatting and parsing are
functions that give their result together with the log records they leave behind.
-/
import GeoPattern.Log.Timing
import GeoPattern.Settings

namespace GeoPattern

/-- What can go wrong in the application. -/
inductive Problem where
  | settings (e : SettingsError)
  | logFileNotText
  | logFile (fault : Fault)
  | pattern (e : PatternError) (pattern : Text)
  | format (e : FormatError)
  | read (e : ReadError)
deriving DecidableEq

namespace Problem

def message : Problem → Text
  | settings e => e.message
  | pattern e text => e.message text
  | format e => e.message
  | read e => e.message
  | logFile fault => fault.message
  | logFileNotText => []

/-- The user is told, instead of the program ending abnormally. -/
def isReported : Problem → Bool
  | settings e => e.isReported
  | pattern .. => true
  | format e => e.isExpected
  | read e => e.isExpected
  | logFile fault => fault.isOfCharacters
  | logFileNotText => false

end Problem

/-- An application; its formatter may be a canned one, which has a logger of its own. -/
structure App where
  settings : Settings
  logger : Logger
  formatter : Formatter
  canned : Bool

namespace App

def loggerName : Text := Text.lit "location_format"

def compilerLoggerName : Text := Text.lit "location_format.formats.compiler"

def formatterLoggerName : Text := Text.lit "location_format.formatter"

/-! ## Starting -/

/-- The outcome of a start: the application or what went wrong, with the logger as soon as it is set
up, the records so far and the files. -/
structure Start where
  logger : Option Logger
  records : List LogRecord
  tree : FileTree
  result : Except Problem App

/-- The name of the log file, if one is set. -/
def logFileName? (settings : Settings) : Except Problem (Option Text) :=
  if settings.logFile.isNothing then .ok none
  else
    match settings.logFile with
    | .string file => .ok (some file)
    | _ => .error .logFileNotText

/-- The record of a compiled or refused pattern. A canned formatter is not compiled again. -/
def compileRecords (pattern : Text) : Except PatternError (Formatter × Bool) → List LogRecord
  | .ok (_, true) => []
  | .ok (f, false) =>
    [⟨compilerLoggerName, .debug, Text.lit "Compiled pattern '" ++ pattern ++ Text.lit "' into " ++
      digits f.body.length ++ Text.lit " formats"⟩]
  | .error e =>
    [⟨compilerLoggerName, .debug, Text.lit "Invalid pattern '" ++ pattern ++ Text.lit "': " ++
      e.message pattern⟩]

/-- Starts the application for a pattern, or for the pattern of the settings if none is given. -/
def start (tree : FileTree) (env : Environment) (configFile pattern : Option Text) : Start :=
  match Settings.load tree env configFile with
  | .error e => ⟨none, [], tree, .error (.settings e)⟩
  | .ok settings =>
    match logFileName? settings with
    | .error e => ⟨none, [], tree, .error e⟩
    | .ok file =>
      match Logger.setUp loggerName settings.level file tree with
      | .error e => ⟨none, [], tree, .error (.logFile e)⟩
      | .ok (logger, tree) =>
        let pattern := (Environment.nonEmpty pattern).getD settings.pattern
        let resolved := Formatter.resolve (some pattern)
        let records := ⟨loggerName, .debug, Text.lit "Configuration: " ++ settings.text⟩ ::
          compileRecords pattern resolved
        match resolved with
        | .ok (formatter, canned) =>
          ⟨some logger, records, tree, .ok { settings, logger, formatter, canned }⟩
        | .error e => ⟨some logger, records, tree, .error (.pattern e pattern)⟩

/-! ## Formatting and parsing -/

/-- The records of a timed operation around those that it leaves itself. -/
def timed (app : App) (operation : String) (inner : List LogRecord) (ending : Ending) :
    List LogRecord :=
  let timing : Timing := ⟨Text.lit operation, some app.formatter.pattern⟩
  let (openLevel, openMessage) := timing.opening
  let (closeLevel, closeMessage) := timing.closing (Timing.duration .zero .zero) ending
  ⟨loggerName, openLevel, openMessage⟩ :: inner ++ [⟨loggerName, closeLevel, closeMessage⟩]

/-- Formats a location. -/
def format (app : App) (latitude longitude elevation : Option Measure) :
    Except FormatError Text × List LogRecord :=
  match app.formatter.formatMeasures latitude longitude elevation with
  | .ok text => (.ok text, app.timed "formatting" [] .completed)
  | .error e => (.error e, app.timed "formatting" [] (.failed e.reason e.isExpected))

/-- The record of a text that does not match. Input behind a match leaves none. -/
def mismatchRecords (app : App) (text : Text) : ReadError → List LogRecord
  | .mismatch failure _ =>
    if failure.cause = .endOfInput then []
    else
      let logger := if app.canned then formatterLoggerName else loggerName
      [⟨logger, .debug, Text.lit "Parsing '" ++ text ++ Text.lit "' with '" ++
        app.formatter.pattern ++ Text.lit "' failed at " ++ signedDigits failure.index ++
        Text.lit ": " ++ failure.cause.message⟩]
  | .outside .. => []

/-- Parses a text. -/
def parse (app : App) (text : Text) : Except ReadError Location × List LogRecord :=
  match app.formatter.parse text with
  | .ok location => (.ok location, app.timed "parsing" [] .completed)
  | .error e =>
    (.error e, app.timed "parsing" (app.mismatchRecords text e) (.failed e.reason e.isExpected))

end App

end GeoPattern
