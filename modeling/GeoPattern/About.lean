/-
What the package tells about itself: its name, version and description, the names of what it
exports, and its parts.
-/
import GeoPattern.Quoted

namespace GeoPattern

namespace About

def packageName : Text := Text.lit "location_format"

def version : Text := Text.lit "0.1.0"

def description : Text :=
  Text.lit "Bidirectional pattern based formatting of geographic locations"

/-- The introduction to the package. -/
def introduction : Text :=
  Text.lit "\nLocation Format\n\n" ++
    Text.lit "This package compiles compact coordinate patterns such as ``DD°MM''SS.SSS\"X``\n" ++
    Text.lit "into reusable formatters that print geographic locations as text and parse\n" ++
    Text.lit "them back.\n"

/-- The names that are exported, each standing for itself. -/
def exports : List Text :=
  ["Location", "LocationFormatter", "LocationException", "FormatterException", "ParseException",
    "LocationFormatApp"].map Text.lit

/-- The parts of the package. -/
def parts : List Text :=
  ["core", "exceptions", "formats", "formatter", "main", "models"].map Text.lit

/-- The message about an attribute that the package lacks. -/
def unknownMessage (name : Text) : Text :=
  Text.lit "module " ++ Text.quoted packageName ++ Text.lit " has no attribute " ++ Text.quoted name

end About

end GeoPattern
