/-
Log records and where they go: to the console and, if one is set, to a file. A record is dropped
unless it reaches the level of the logger; a logger without a level of its own works at warnings.
-/
import GeoPattern.FileTree
import GeoPattern.Log.Level

namespace GeoPattern

/-- A message with its level and the name of the logger that was called. -/
structure LogRecord where
  logger : Text
  level : Level
  message : Text
deriving DecidableEq

/-- Where log lines go. -/
inductive Sink where
  | console (level : Level)
  | file (level : Level)
deriving DecidableEq

/-- A logger with a console, and the place of its log file. -/
structure Logger where
  name : Text
  level : Level
  logFile : Option (List Text)
deriving DecidableEq

namespace Logger

/-- The level below which records are dropped. -/
def effectiveLevel (logger : Logger) : Level :=
  if logger.level = .notset then .warning else logger.level

/-- The sinks of the logger; the log file takes every record that the logger does. -/
def sinks (logger : Logger) : List Sink :=
  .console logger.level :: if logger.logFile.isSome then [.file .debug] else []

/-- A record of the given level passes the logger and a sink. -/
def accepts (logger : Logger) (sink level : Level) : Bool :=
  logger.effectiveLevel.severity ≤ level.severity && sink.severity ≤ level.severity

/-- The parts of a log line. -/
def line (parts : List Text) : Text := List.intercalate (Text.lit " - ") parts ++ [.char '\n']

/-- The lines on the console. -/
def consoleText (logger : Logger) (stamp : Text) (records : List LogRecord) : Text :=
  (records.filter (logger.accepts logger.level ·.level)).flatMap fun r =>
    line [stamp, r.level.name, r.message]

/-- The lines in the log file. -/
def fileText (logger : Logger) (stamp : Text) (records : List LogRecord) : Text :=
  (records.filter (logger.accepts .debug ·.level)).flatMap fun r =>
    line [stamp, r.logger, r.level.name, r.message]

/-- The file tree after the records were logged. -/
def writeFile (logger : Logger) (stamp : Text) (records : List LogRecord) (tree : FileTree) :
    FileTree :=
  match logger.logFile with
  | some place => tree.append place (logger.fileText stamp records)
  | none => tree

/-- What a logger that was never set up writes to the console: the bare messages of warnings and
above. -/
def bareText (records : List LogRecord) : Text :=
  (records.filter fun r => Level.warning.severity ≤ r.level.severity).flatMap fun r =>
    r.message ++ [.char '\n']

/-- Sets a logger up and opens its log file. An empty file name stands for none. -/
def setUp (name : Text) (level : Level) (logFile : Option Text) (tree : FileTree) :
    Except Fault (Logger × FileTree) :=
  match logFile with
  | none | some [] => .ok (⟨name, level, none⟩, tree)
  | some file => do
    let path := Path.ofText file
    let tree ← tree.openAt path
    pure (⟨name, level, some path.place⟩, tree)

end Logger

end GeoPattern
