/-
The levels of log lines, and the names by which they are set.
-/
import GeoPattern.Text

namespace GeoPattern

inductive Level where
  | notset
  | debug
  | info
  | warning
  | error
  | critical
deriving DecidableEq

namespace Level

def severity : Level → Nat
  | notset => 0
  | debug => 10
  | info => 20
  | warning => 30
  | error => 40
  | critical => 50

/-- The name of the level in a log line. -/
def name : Level → Text
  | notset => Text.lit "NOTSET"
  | debug => Text.lit "DEBUG"
  | info => Text.lit "INFO"
  | warning => Text.lit "WARNING"
  | error => Text.lit "ERROR"
  | critical => Text.lit "CRITICAL"

/-- The names that set a level, in capitals. -/
def names : List (String × Level) := [
  ("NOTSET", notset), ("DEBUG", debug), ("INFO", info), ("WARN", warning), ("WARNING", warning),
  ("ERROR", error), ("FATAL", critical), ("CRITICAL", critical)]

/-- The level of a name in any case. -/
def ofName? (t : Text) : Option Level :=
  (names.find? (Text.lit ·.1 == Text.capitalized t)).map (·.2)

/-- What a name stands for in a log that is no level. -/
inductive Misnomer where
  /-- The form of a line. -/
  | lineForm
  /-- The kinds of forms. -/
  | formKinds
deriving DecidableEq

/-- The names that stand for something else, in capitals. -/
def misnomers : List (String × Misnomer) :=
  [("BASIC_FORMAT", .lineForm), ("_STYLES", .formKinds)]

/-- The level that a setting names. A name that stands for nothing stands for warnings, and one that
stands for something else is refused. -/
def ofSetting (t : Text) : Except Misnomer Level :=
  match ofName? t with
  | some level => .ok level
  | none =>
    match misnomers.find? (Text.lit ·.1 == Text.capitalized t) with
    | some (_, misnomer) => .error misnomer
    | none => .ok .warning

end Level

end GeoPattern
