/-
Decimal numbers that are not negative: a coefficient times a power of ten. A double is one exactly.
Products keep 28 significant digits, and a number is refused where it would need more of them: when
it is quantised to a count of fraction digits, and as the whole quotient of a division. Leading
digits stand between `10 ^ -999999` and `10 ^ 999999`, which bounds the count of fraction digits.
-/
import GeoPattern.Digits
import GeoPattern.Double.Basic

namespace GeoPattern

-- powers of natural numbers are those of the core library, whatever else is imported
attribute [local instance (high)] instPowNat

/-- The decimal number `coefficient * 10 ^ exponent`. -/
structure Decimal where
  coefficient : Nat
  exponent : Int
deriving DecidableEq

namespace Decimal

/-- How many significant digits a computed number keeps. -/
def precision : Nat := 28

/-- The first coefficient with more digits than are kept. -/
def coefficientLimit : Nat := 10 ^ precision

/-- The greatest power of ten, up or down, at which the first digit of a number may stand. -/
def exponentSpan : Nat := 999999

/-- How far a power of ten may be shifted: twice the span of exponents and digits. -/
def shiftLimit : Nat := 2 * (exponentSpan + precision)

/-- The most fraction digits that a number has; whatever is finer ends there. -/
def finestPlaces : Nat := exponentSpan + (precision - 1)

/-- Why a number is not rounded to a power of ten. -/
inductive Refusal where
  /-- It would need more than 28 digits, or the power of ten is shifted too far. -/
  | precision
  /-- The power of ten is greater than every number. -/
  | overflow
deriving DecidableEq

def zero : Decimal := ⟨0, 0⟩

/-- The exact value of a magnitude: a unit is `5 ^ 1074 * 10 ^ -1074`. -/
def ofMagnitude (m : Magnitude) : Decimal := ⟨m.units * 5 ^ (1074 : Nat), -1074⟩

/-- The nearest number of 28 significant digits. -/
def rounded (x : Decimal) : Decimal :=
  let excess := digitCount x.coefficient - precision
  if excess = 0 then x
  else ⟨roundHalfEven x.coefficient (10 ^ excess), x.exponent + excess⟩

/-- The product with a whole number, to 28 significant digits. -/
def times (x : Decimal) (n : Nat) : Decimal := rounded ⟨x.coefficient * n, x.exponent⟩

/-- The whole number nearest to `x * 10 ^ places`. -/
def scaled (x : Decimal) (places : Int) : Nat :=
  let shift := x.exponent + places
  if 0 ≤ shift then x.coefficient * 10 ^ shift.toNat
  else roundHalfEven x.coefficient (10 ^ (-shift).toNat)

/-- `x` rounded to a count of fraction digits (to tens, hundreds, … for a negative count), unless
that takes more than 28 digits or shifts too far. -/
def quantize (x : Decimal) (places : Int) : Except Refusal Decimal :=
  if shiftLimit < places.natAbs then .error .precision
  else if places < -exponentSpan then .error .overflow
  else
    let kept := min places finestPlaces
    if x.scaled kept < coefficientLimit then .ok ⟨x.scaled kept, -kept⟩ else .error .precision

/-- The whole quotient by `n` and the remainder, unless the quotient has more than 28 digits. -/
def divMod (x : Decimal) (n : Nat) : Except Refusal (Nat × Decimal) :=
  let whole := x.coefficient * 10 ^ x.exponent.toNat
  let part := n * 10 ^ (-x.exponent).toNat
  if whole / part < coefficientLimit then .ok (whole / part, ⟨whole % part, min x.exponent 0⟩)
  else .error .precision

/-- The double nearest to the number, with the given sign. -/
def toDouble (negative : Bool) (x : Decimal) : Double :=
  Double.ofRatio negative (x.coefficient * 10 ^ x.exponent.toNat) (10 ^ (-x.exponent).toNat)

end Decimal

end GeoPattern
