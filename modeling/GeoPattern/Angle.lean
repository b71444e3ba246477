/-
Splitting the size of an angle into degrees, minutes and seconds. The angle is rounded once, to the
fraction digits of its finest unit, and then split without any further rounding; a rounded up
second is carried into the minutes and degrees and never shows as sixty.
-/
import GeoPattern.Decimal
import GeoPattern.Quantity

namespace GeoPattern

namespace Angle

/-- An angle in exact decimals; only its finest unit has a fraction. -/
structure Parts where
  degrees : Decimal
  minutes : Decimal
  seconds : Decimal
deriving DecidableEq

/-- The angle counted in a unit and rounded to `places` fraction digits. -/
def total (m : Magnitude) (unit : MeasureUnit) (places : Int) : Except Decimal.Refusal Decimal :=
  match unit with
  | .degree => (Decimal.ofMagnitude m).quantize places
  | unit => ((Decimal.ofMagnitude m).times unit.perDegree).quantize places

/-- The parts of an angle down to its finest unit; what is finer is zero. There are none where the
angle needs too many digits. -/
def split (m : Magnitude) (unit : MeasureUnit) (places : Int) : Except Decimal.Refusal Parts := do
  let total ← total m unit places
  match unit with
  | .degree => pure ⟨total, .zero, .zero⟩
  | .minute =>
    let (degrees, minutes) ← total.divMod 60
    pure ⟨⟨degrees, 0⟩, minutes, .zero⟩
  | .second | .meter =>
    let (degrees, rest) ← total.divMod 3600
    let (minutes, seconds) ← rest.divMod 60
    pure ⟨⟨degrees, 0⟩, ⟨minutes, 0⟩, seconds⟩

/-- What is no number is kept in every part down to the finest unit. -/
def splitNaN : MeasureUnit → Double × Double × Double
  | .degree => (.nan, .zero, .zero)
  | .minute => (.nan, .nan, .zero)
  | .second | .meter => (.nan, .nan, .nan)

/-- The parts as doubles, in the order degrees, minutes, seconds. What is no number splits into
parts that are none, and an infinite angle cannot be split. -/
def parts (angle : Double) (unit : MeasureUnit) (places : Int) :
    Except Decimal.Refusal (Double × Double × Double) :=
  match angle with
  | .finite _ magnitude => do
    let parts ← split magnitude unit places
    pure (parts.degrees.toDouble false, parts.minutes.toDouble false, parts.seconds.toDouble false)
  | .infinite _ => do
    let _ ← Decimal.zero.quantize places
    throw .precision
  | .nan => do
    let _ ← Decimal.zero.quantize places
    pure (splitNaN unit)

end Angle

end GeoPattern
