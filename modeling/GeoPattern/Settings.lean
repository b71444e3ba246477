/-
Settings: a JSON file, single values of which the environment overrides. A setting has a dotted key,
whose parts lead through the objects of the file; the pattern and the level of the log are checked
when the settings are loaded.
-/
import GeoPattern.Catalogue
import GeoPattern.FileTree
import GeoPattern.Json.Read
import GeoPattern.Log.Level

namespace GeoPattern

/-- The environment variables that count; an empty one counts as unset. -/
structure Environment where
  config : Option Text
  pattern : Option Text
  logLevel : Option Text
  logFile : Option Text

/-- The value of a variable, unless it is empty. -/
def Environment.nonEmpty : Option Text → Option Text
  | some [] => none
  | value => value

/-- Why settings cannot be loaded. -/
inductive SettingsError where
  /-- The file that was asked for is missing. -/
  | fileMissing (file : Text)
  | fileIsDirectory
  /-- The name of the file cannot be looked up. -/
  | fileNameTooLong
  | malformed (e : Json.SyntaxError)
  /-- The file holds no object, so that nothing in it can be overridden. -/
  | rootNotObject
  /-- A section that has to be written to is no object. -/
  | sectionNotObject
  | levelNotText
  | unknownLevel (level : Text)
  | patternNotText
  | badPattern (pattern : Text) (e : PatternError)
deriving DecidableEq

namespace SettingsError

def message : SettingsError → Text
  | fileMissing file => Text.lit "Configuration file not found: " ++ file
  | malformed e => e.message
  | unknownLevel level => Text.lit "Invalid logging level: " ++ level
  | badPattern pattern e =>
    Text.lit "Invalid default pattern '" ++ pattern ++ Text.lit "': " ++ e.message pattern
  | fileIsDirectory | fileNameTooLong | rootNotObject | sectionNotObject | levelNotText
  | patternNotText => []

/-- The user is told, instead of the program ending abnormally. -/
def isReported : SettingsError → Bool
  | fileMissing _ | malformed _ | unknownLevel _ | badPattern .. => true
  | _ => false

end SettingsError

/-- Settings that passed the checks. -/
structure Settings where
  /-- The file was asked for by name. -/
  explicit : Bool
  file : Text
  root : Json
  pattern : Text
  levelName : Text
  level : Level

namespace Settings

def defaultFile : Text := Text.lit "location_format.json"

def defaultLevel : Text := Text.lit "WARNING"

/-! ## Keys -/

/-- The parts of a dotted key. -/
def parts (key : Text) : List Text := key.splitOn (.char '.')

/-- The value of a dotted key, or the default if there is none. -/
def lookup (root : Json) (key : Text) (default : Json) : Json :=
  (root.get? (parts key)).getD default

def sectionOfPattern : Text := Text.lit "format"

def sectionOfLog : Text := Text.lit "logging"

def keyOfPattern : Text := Text.lit "pattern"

def keyOfLevel : Text := Text.lit "level"

def keyOfLogFile : Text := Text.lit "file"

/-! ## Overriding -/

/-- Sets a key in a section, which is made if it is missing. -/
def setIn (root : Json) (part key value : Text) : Except SettingsError Json :=
  match root with
  | .object members =>
    match Json.lookup? part members with
    | none => .ok (.object (Json.put part (.object [(key, .string value)]) members))
    | some (.object inner) =>
      .ok (.object (Json.put part (.object (Json.put key (.string value) inner)) members))
    | some _ => .error .sectionNotObject
  | _ => .error .rootNotObject

/-- Sets a key if the variable for it is set. -/
def overrideOne (part key : Text) (setting : Option Text) (root : Json) :
    Except SettingsError Json :=
  match Environment.nonEmpty setting with
  | some value => setIn root part key value
  | none => .ok root

/-- The settings with the variables of the environment in place of their values. -/
def override (env : Environment) (root : Json) : Except SettingsError Json := do
  let root ← overrideOne sectionOfPattern keyOfPattern env.pattern root
  let root ← overrideOne sectionOfLog keyOfLevel env.logLevel root
  overrideOne sectionOfLog keyOfLogFile env.logFile root

/-! ## Loading -/

/-- The text of a file with every line end as one character. -/
def unifyLines : Text → Text
  | [] => []
  | '\r' :: '\n' :: rest => '\n' :: unifyLines rest
  | '\r' :: rest => '\n' :: unifyLines rest
  | c :: rest => c :: unifyLines rest

/-- The file of the settings: the one that was named, or of the environment, or the default. -/
def fileName (named : Option Text) (env : Environment) : Text :=
  ((Environment.nonEmpty named).or (Environment.nonEmpty env.config)).getD defaultFile

/-- The file was named, even by an empty name, or is set in the environment. -/
def isExplicit (named : Option Text) (env : Environment) : Bool :=
  named.isSome || (Environment.nonEmpty env.config).isSome

/-- The value in the settings file; a missing default file counts as empty. -/
def readRoot (tree : FileTree) (file : Text) (explicit : Bool) : Except SettingsError Json :=
  match tree.entry (Path.ofText file) with
  | .ok .directory => .error .fileIsDirectory
  | .ok (.file content) =>
    match Json.ofText (unifyLines content) with
    | .ok root => .ok root
    | .error e => .error (.malformed e)
  | .error .nameTooLong => .error .fileNameTooLong
  | .error _ => if explicit then .error (.fileMissing file) else .ok (.object [])

def logLevelOf (root : Json) : Json :=
  (root.get? [sectionOfLog, keyOfLevel]).getD (.string defaultLevel)

def patternOf (root : Json) : Json :=
  (root.get? [sectionOfPattern, keyOfPattern]).getD (.string Catalogue.defaultPattern)

/-- The level that is set, under its name. -/
def checkLevel (root : Json) : Except SettingsError (Text × Level) :=
  match logLevelOf root with
  | .string name =>
    match Level.ofName? name with
    | some level => .ok (name, level)
    | none => .error (.unknownLevel name)
  | _ => .error .levelNotText

/-- The pattern that is set; it has to be a canned name or a pattern. -/
def checkPattern (root : Json) : Except SettingsError Text :=
  match patternOf root with
  | .string pattern =>
    match Formatter.resolve (some pattern) with
    | .ok _ => .ok pattern
    | .error e => .error (.badPattern pattern e)
  | _ => .error .patternNotText

/-- Loads the settings. -/
def load (tree : FileTree) (env : Environment) (named : Option Text) :
    Except SettingsError Settings := do
  let explicit := isExplicit named env
  let file := fileName named env
  let root ← readRoot tree file explicit
  let root ← override env root
  let (levelName, level) ← checkLevel root
  let pattern ← checkPattern root
  pure { explicit, file, root, pattern, levelName, level }

/-- The log file, `null` if none is set. -/
def logFile (settings : Settings) : Json :=
  (settings.root.get? [sectionOfLog, keyOfLogFile]).getD .null

def text (settings : Settings) : Text :=
  Text.lit "Config(file=" ++ settings.file ++ Text.lit ", pattern=" ++
    Text.quoted settings.pattern ++ Text.lit ", log_level=" ++ settings.levelName ++ [.char ')']

end Settings

end GeoPattern
