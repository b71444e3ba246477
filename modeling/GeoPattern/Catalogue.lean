/-
The canned patterns: the forms of ISO 6709, for people and for machines, under their names.
-/
import GeoPattern.Formatter

namespace GeoPattern

namespace Catalogue

/-- The canned patterns with their names. -/
def entries : List (String × String) := [
  ("ISO_HUMAN_LAT_LONG", "DD°MM''SS.SSS\"X"),
  ("ISO_HUMAN_LON_LONG", "dd°mm''ss.sss\"x"),
  ("ISO_HUMAN_ELE_LONG", "E.EE'm'"),
  ("ISO_HUMAN_LONG", "DD°MM''SS.SSS\"X dd°mm''ss.sss\"x[ E.EE'm']"),
  ("ISO_LAT_SHORT", "+DD.DD"),
  ("ISO_LAT_MEDIUM", "+DDMM.MMM"),
  ("ISO_LAT_LONG", "+DDMMSS.SS"),
  ("ISO_LON_SHORT", "+ddd.dd"),
  ("ISO_LON_MEDIUM", "+dddmm.mmm"),
  ("ISO_LON_LONG", "+dddmmss.ss"),
  ("ISO_ELE_SHORT", "+H'CRS'"),
  ("ISO_ELE_MEDIUM", "+H.H'CRS'"),
  ("ISO_ELE_LONG", "+H.HH'CRS'"),
  ("ISO_SHORT", "+DD.DD+ddd.dd[+H'CRS']"),
  ("ISO_MEDIUM", "+DDMM.MMM+dddmm.mmm[+H.H'CRS']"),
  ("ISO_LONG", "+DDMMSS.SS+dddmmss.ss[+H.HH'CRS']")]

/-- The pattern that is used when none is given. -/
def defaultPattern : Text := Text.lit "DD°MM''SS.SSS\"X dd°mm''ss.sss\"x[ E.EE'm']"

/-- The canned pattern of a name. -/
def pattern? (name : Text) : Option Text :=
  (entries.find? (Text.lit ·.1 == name)).map (Text.lit ·.2)

end Catalogue

namespace Formatter

/-- The formatter of a canned name. -/
def named? (name : Text) : Option Formatter :=
  (Catalogue.pattern? name).bind fun pattern => (ofPattern pattern).toOption

/-- The formatter of a canned name or of a pattern, and whether the name was canned. -/
def resolve (nameOrPattern : Option Text) : Except PatternError (Formatter × Bool) :=
  match nameOrPattern with
  | none => throw .absent
  | some t =>
    match named? t with
    | some f => pure (f, true)
    | none => do
      let f ← ofPattern t
      pure (f, false)

end Formatter

end GeoPattern
