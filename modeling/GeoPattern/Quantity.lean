/-
What the letters and symbols of a pattern stand for: the axes of a location, the units in which a
part of it is written, the ten quantities with a letter of their own, and the marks that carry the
sign of an axis.
-/
import GeoPattern.Text

namespace GeoPattern

/-! ## Axes and units -/

/-- The components of a location. -/
inductive Axis where
  | latitude
  | longitude
  | elevation
deriving DecidableEq

/-- The unit in which a quantity is counted. -/
inductive MeasureUnit where
  | degree
  | minute
  | second
  | meter
deriving DecidableEq

namespace Axis

def name : Axis → String
  | latitude => "latitude"
  | longitude => "longitude"
  | elevation => "elevation"

end Axis

namespace MeasureUnit

def name : MeasureUnit → String
  | degree => "degree"
  | minute => "minute"
  | second => "second"
  | meter => "meter"

/-- How many of a unit of angle make a degree. A meter, which is none, counts as a second. -/
def perDegree : MeasureUnit → Nat
  | degree => 1
  | minute => 60
  | second | meter => 3600

end MeasureUnit

/-! ## Quantities -/

/-- A part of a location that a numeric field writes and reads. -/
inductive Quantity where
  | latitude
  | degreeOfLatitude
  | minuteOfLatitude
  | secondOfLatitude
  | longitude
  | degreeOfLongitude
  | minuteOfLongitude
  | secondOfLongitude
  | elevation
  | meterOfElevation
deriving DecidableEq

namespace Quantity

/-- The letter that stands for the quantity in a pattern. -/
def letter : Quantity → CodePoint
  | latitude => 'L'
  | degreeOfLatitude => 'D'
  | minuteOfLatitude => 'M'
  | secondOfLatitude => 'S'
  | longitude => 'l'
  | degreeOfLongitude => 'd'
  | minuteOfLongitude => 'm'
  | secondOfLongitude => 's'
  | elevation => 'E'
  | meterOfElevation => 'H'

def axis : Quantity → Axis
  | latitude | degreeOfLatitude | minuteOfLatitude | secondOfLatitude => .latitude
  | longitude | degreeOfLongitude | minuteOfLongitude | secondOfLongitude => .longitude
  | elevation | meterOfElevation => .elevation

def unit : Quantity → MeasureUnit
  | latitude | degreeOfLatitude | longitude | degreeOfLongitude => .degree
  | minuteOfLatitude | minuteOfLongitude => .minute
  | secondOfLatitude | secondOfLongitude => .second
  | elevation | meterOfElevation => .meter

/-- The quantity is written with the sign of its axis. -/
def isSigned : Quantity → Bool
  | latitude | longitude | elevation => true
  | _ => false

def all : List Quantity :=
  [latitude, degreeOfLatitude, minuteOfLatitude, secondOfLatitude,
    longitude, degreeOfLongitude, minuteOfLongitude, secondOfLongitude,
    elevation, meterOfElevation]

/-- The quantity of a letter. -/
def ofLetter? (c : CodePoint) : Option Quantity := all.find? (·.letter == c)

/-- The quantity of a text, which has to be a single letter. -/
def ofText? : Text → Option Quantity
  | [c] => ofLetter? c
  | _ => none

/-- The message about a text that is no field letter. -/
def unknownMessage (t : Text) : Text :=
  Text.lit "Unknown field letter '" ++ t ++ Text.lit "'."

@[simp] theorem ofLetter?_letter (q : Quantity) : ofLetter? q.letter = some q := by
  cases q <;> rfl

theorem letter_of_ofLetter? {c : CodePoint} {q : Quantity} (h : ofLetter? c = some q) :
    q.letter = c := by
  have := List.find?_some h
  simpa using this

end Quantity

/-! ## Sign marks -/

/-- The letters for the hemispheres: north and south, or east and west. -/
inductive Hemisphere where
  | northSouth
  | eastWest
deriving DecidableEq

namespace Hemisphere

def symbol : Hemisphere → CodePoint
  | northSouth => 'X'
  | eastWest => 'x'

def axis : Hemisphere → Axis
  | northSouth => .latitude
  | eastWest => .longitude

/-- The hemisphere letters of a symbol. -/
def ofSymbol? (c : CodePoint) : Option Hemisphere :=
  if c = 'X' then some northSouth else if c = 'x' then some eastWest else none

/-- The hemisphere letters of a text, which has to be a single symbol. -/
def ofText? : Text → Option Hemisphere
  | [c] => ofSymbol? c
  | _ => none

/-- The message about a text that is no hemisphere symbol. -/
def unknownMessage (t : Text) : Text :=
  Text.lit "Unknown hemisphere symbol '" ++ t ++ Text.lit "'."

end Hemisphere

/-- One character that carries the sign of an axis: plus or minus, or a hemisphere letter. -/
inductive SignMark where
  | plus (axis : Axis)
  | hemisphere (kind : Hemisphere)
deriving DecidableEq

namespace SignMark

def symbol : SignMark → CodePoint
  | plus _ => '+'
  | hemisphere kind => kind.symbol

def axis : SignMark → Axis
  | plus axis => axis
  | hemisphere kind => kind.axis

/-- What is written for zero and above. -/
def positive : SignMark → CodePoint
  | plus _ => '+'
  | hemisphere .northSouth => 'N'
  | hemisphere .eastWest => 'E'

/-- What is written below zero. -/
def negative : SignMark → CodePoint
  | plus _ => '-'
  | hemisphere .northSouth => 'S'
  | hemisphere .eastWest => 'W'

end SignMark

end GeoPattern
