/-
A location: latitude and longitude in degrees and an elevation in meters, each with its sign and
each of them optional.
-/
import GeoPattern.Quantity
import GeoPattern.Double.Text

namespace GeoPattern

structure Location where
  latitude : Option Double
  longitude : Option Double
  elevation : Option Double
deriving DecidableEq

/-- A component as it is handed in: a whole number of any size, a double, or an empty list where a
number should be. -/
inductive Measure where
  | whole (n : Int)
  | real (x : Double)
  | emptyList
deriving DecidableEq

namespace Measure

/-- Why a measure is no double. -/
inductive Refusal where
  /-- It is a whole number beyond the range of doubles. -/
  | tooLarge
  | notNumber
deriving DecidableEq

/-- The double nearest to a measure. -/
def toDouble : Measure → Except Refusal Double
  | whole n =>
    match Double.ofInt? n with
    | some x => .ok x
    | none => .error .tooLarge
  | real x => .ok x
  | emptyList => .error .notNumber

end Measure

namespace Location

def empty : Location := ⟨none, none, none⟩

/-- The component of an axis. -/
def component (location : Location) : Axis → Option Double
  | .latitude => location.latitude
  | .longitude => location.longitude
  | .elevation => location.elevation

/-- The double of a component; one that is left out stays absent. -/
def ofMeasure : Option Measure → Except Measure.Refusal (Option Double)
  | none => .ok none
  | some measure => do pure (some (← measure.toDouble))

/-- The location of three measures, unless one of them is refused. -/
def ofMeasures (latitude longitude elevation : Option Measure) :
    Except Measure.Refusal Location := do
  let latitude ← ofMeasure latitude
  let longitude ← ofMeasure longitude
  let elevation ← ofMeasure elevation
  pure ⟨latitude, longitude, elevation⟩

def ofLatitude (degrees : Double) : Location := { empty with latitude := some degrees }

def ofLongitude (degrees : Double) : Location := { empty with longitude := some degrees }

def ofElevation (meters : Double) : Location := { empty with elevation := some meters }

/-- The location as a point, if it has both a latitude and a longitude. -/
def point? (location : Location) : Option (Double × Double × Option Double) := do
  let latitude ← location.latitude
  let longitude ← location.longitude
  pure (latitude, longitude, location.elevation)

/-- The text of a component. -/
def componentText : Option Double → Text
  | none => Text.lit "None"
  | some x => x.text

def text (location : Location) : Text :=
  Text.lit "[lat=" ++ componentText location.latitude ++
    Text.lit ", lon=" ++ componentText location.longitude ++
    Text.lit ", ele=" ++ componentText location.elevation ++ [.char ']']

end Location

end GeoPattern
