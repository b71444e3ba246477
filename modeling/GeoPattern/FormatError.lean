/-
Why a location cannot be written with a pattern.
-/
import GeoPattern.Location
import GeoPattern.Specifier.Basic

namespace GeoPattern

inductive FormatError where
  /-- A field got an infinite value or one that is no number. -/
  | notFinite (value : Double) (specifier : Specifier)
  /-- A number cannot be rounded to the digits of a field. -/
  | arithmetic (refusal : Decimal.Refusal)
  /-- A part outside of all optional groups is absent. -/
  | missing (pattern : Text) (location : Location)
  /-- A component is no double. -/
  | measure (refusal : Measure.Refusal)
  /-- A location came together with single components. -/
  | combined
deriving DecidableEq

namespace FormatError

/-- The kind of the error, as log lines name it. -/
def label : FormatError → Text
  | notFinite .. | missing .. => Text.lit "FormatterException"
  | arithmetic .precision => Text.lit "InvalidOperation"
  | arithmetic .overflow => Text.lit "Overflow"
  | measure .tooLarge => Text.lit "OverflowError"
  | measure .notNumber | combined => Text.lit "TypeError"

def message : FormatError → Text
  | notFinite value specifier =>
    Text.lit "Can't format " ++ value.text ++ Text.lit " with '" ++ specifier.spelling ++
      Text.lit "'."
  | arithmetic _ => []
  | missing pattern location =>
    Text.lit "Invalid format '" ++ pattern ++ Text.lit "' for location " ++ location.text ++
      Text.lit "."
  | measure .tooLarge => Text.lit "int too large to convert to float"
  | measure .notNumber =>
    Text.lit "float() argument must be a string or a real number, not 'list'"
  | combined => Text.lit "Longitude and elevation can't be combined with a Location."

/-- The error as a log line gives it. -/
def reason : FormatError → Text
  | arithmetic refusal => (arithmetic refusal).label
  | e => e.label ++ Text.lit ": " ++ e.message

/-- The location is at fault, and not a limit of the arithmetic. -/
def isExpected : FormatError → Bool
  | notFinite .. | missing .. => true
  | _ => false

end FormatError

end GeoPattern
