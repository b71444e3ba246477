/-
Formatters: a pattern with its tree, for writing locations and reading them back.
-/
import GeoPattern.Layout.Read
import GeoPattern.Layout.Render
import GeoPattern.Pattern.Compile
import GeoPattern.Quoted

namespace GeoPattern

/-- A pattern together with the tree it was compiled to. -/
structure Formatter where
  pattern : Text
  body : List Node

/-- Why a text was not read. -/
inductive ReadError where
  /-- The position does not lie in the text. -/
  | outside (index : Int) (text : Text)
  | mismatch (failure : Failure) (text : Text)
deriving DecidableEq

namespace ReadError

/-- The kind of the error, as log lines name it. -/
def label : ReadError → Text
  | outside .. => Text.lit "IndexError"
  | mismatch .. => Text.lit "ParseException"

def message : ReadError → Text
  | outside index text =>
    Text.lit "Parse position " ++ signedDigits index ++ Text.lit " is outside of '" ++ text ++
      Text.lit "'."
  | mismatch failure text =>
    failure.cause.message ++ Text.lit " at position " ++ signedDigits failure.index ++
      Text.lit " in '" ++ text ++ Text.lit "'."

/-- The error as a log line gives it. -/
def reason (e : ReadError) : Text := e.label ++ Text.lit ": " ++ e.message

/-- The text does not match the pattern. -/
def isExpected : ReadError → Bool
  | mismatch .. => true
  | outside .. => false

end ReadError

namespace Formatter

/-- The formatter of a pattern. -/
def ofPattern (pattern : Text) : Except PatternError Formatter := do
  let body ← compile pattern
  pure ⟨pattern, body⟩

/-- The pattern that is regenerated from the tree. -/
def toPattern (f : Formatter) : Text := Node.spellingOf f.body

/-- The formatters have equal trees, so that they write and read the same. -/
def sameTree (f g : Formatter) : Bool := decide (f.body = g.body)

def text (f : Formatter) : Text := Text.lit "LocationFormat[" ++ f.toPattern ++ [.char ']']

/-- The expression that makes the formatter again. -/
def expression (f : Formatter) : Text :=
  Text.lit "LocationFormatter.of_pattern(" ++ Text.quoted f.pattern ++ [.char ')']

/-! ## Writing -/

/-- The text of a location. -/
def format (f : Formatter) (location : Location) : Except FormatError Text := do
  match ← Node.renderAll location f.body with
  | some text => pure text
  | none => throw (.missing f.toPattern location)

/-- The text of a location given by its components. -/
def formatMeasures (f : Formatter) (latitude longitude elevation : Option Measure) :
    Except FormatError Text :=
  match Location.ofMeasures latitude longitude elevation with
  | .ok location => f.format location
  | .error refusal => throw (.measure refusal)

/-- What is to be written: a location, or the latitude of one. -/
inductive Subject where
  | whole (location : Location)
  | latitude (degrees : Option Measure)

/-- The location of a subject. A longitude and an elevation complete a latitude, but cannot be
combined with a location, which has its own. -/
def Subject.completed (subject : Subject) (longitude elevation : Option Measure) :
    Except FormatError Location :=
  match subject with
  | .whole location =>
    if longitude.isSome ∨ elevation.isSome then .error .combined else .ok location
  | .latitude degrees =>
    (Location.ofMeasures degrees longitude elevation).mapError .measure

/-- The text of a subject, with the components that come with it. -/
def formatSubject (f : Formatter) (subject : Subject) (longitude elevation : Option Measure) :
    Except FormatError Text := do
  f.format (← subject.completed longitude elevation)

/-! ## Reading -/

/-- Reads a location from the cursor on. The cursor is left behind the text that was read, or where
the reading failed. -/
def parseAt (f : Formatter) (text : Text) (cursor : Cursor) : Except ReadError Location × Cursor :=
  if cursor.index < 0 ∨ text.length < cursor.index then
    (.error (.outside cursor.index text), cursor)
  else
    match Node.readAll text ⟨cursor, .empty⟩ f.body with
    | .ok state => (.ok state.draft.build, state.cursor)
    | .error ⟨.mismatch, state⟩ =>
      let failure := state.cursor.failure.getD ⟨state.cursor.index, .endOfInput⟩
      (.error (.mismatch failure text), state.cursor)
    | .error ⟨.outside, state⟩ => (.error (.outside state.cursor.index text), state.cursor)

/-- Reads a location from a whole text. -/
def parse (f : Formatter) (text : Text) : Except ReadError Location :=
  match f.parseAt text (.start 0) with
  | (.ok location, cursor) =>
    if cursor.index = text.length then .ok location
    else .error (.mismatch ⟨cursor.index, .endOfInput⟩ text)
  | (.error e, _) => .error e

end Formatter

end GeoPattern
