/-
The shortest decimal that reads back as a given double, and of the shortest ones the nearest, a tie
going to the even digit. A double is a multiple of `2 ^ -1074`, hence a whole number of
`10 ^ -1074`; the decimals that round to it fill an interval around it, whose ends belong to it when
its significand is even. For one digit, two digits, … the two neighbours of the double on that
decimal grid are held against the interval; seventeen digits always suffice.
-/
import GeoPattern.Digits
import GeoPattern.Double.Basic

namespace GeoPattern

-- powers of natural numbers are those of the core library, whatever else is imported
attribute [local instance (high)] instPowNat

namespace Magnitude

/-- The distance to the next smaller magnitude: half the spacing at a power of two. -/
def spacingBelow (m : Magnitude) : Nat :=
  let above := spacing m.units
  if 1 < above ∧ m.units = 2 ^ (52 : Nat) * above then above / 2 else above

/-- The significand is even, so that a tie rounds to this magnitude. -/
def isEven (m : Magnitude) : Bool := m.units / spacing m.units % 2 == 0

/-- The magnitude counted in `10 ^ -1074`. -/
def grains (m : Magnitude) : Nat := m.units * 5 ^ (1074 : Nat)

/-- Four times a count of grains lies among the numbers that round to `m`. -/
def attracts (m : Magnitude) (grains : Nat) : Bool :=
  let low := (4 * m.units - 2 * m.spacingBelow) * 5 ^ (1074 : Nat)
  let high := (4 * m.units + 2 * spacing m.units) * 5 ^ (1074 : Nat)
  if m.isEven then low ≤ 4 * grains && 4 * grains ≤ high
  else low < 4 * grains && 4 * grains < high

/-- The decimal of `count` digits that rounds to `m` and is nearest to it, as a number of grid
steps of `step` grains. -/
def candidate? (m : Magnitude) (step : Nat) : Option Nat :=
  let below := m.grains / step
  let remainder := m.grains % step
  match m.attracts (below * step), m.attracts ((below + 1) * step) with
  | true, true =>
    if 2 * remainder < step then some below
    else if step < 2 * remainder then some (below + 1)
    else some (below + below % 2)
  | true, false => some below
  | false, true => some (below + 1)
  | false, false => none

/-- Tries the grids of ever more digits, at most `fuel` of them. -/
def search (m : Magnitude) (total : Nat) : (fuel count : Nat) → Nat × Nat
  | 0, count => (m.grains / 10 ^ (total - count), total - count)
  | fuel + 1, count =>
    match m.candidate? (10 ^ (total - count)) with
    | some steps => (steps, total - count)
    | none => search m total fuel (count + 1)

/-- Drops the zeros at the end of a coefficient, at most `fuel` of them. -/
def dropZeros : (fuel coefficient : Nat) → (exponent : Int) → Nat × Int
  | 0, coefficient, exponent => (coefficient, exponent)
  | fuel + 1, coefficient, exponent =>
    if coefficient % 10 = 0 then dropZeros fuel (coefficient / 10) (exponent + 1)
    else (coefficient, exponent)

/-- The shortest decimal of a magnitude other than zero: digits and a power of ten. -/
def shortest (m : Magnitude) : Nat × Int :=
  let total := digitCount m.grains
  let (steps, zeros) := m.search total 17 1
  dropZeros 18 steps ((zeros : Int) - 1074)

end Magnitude

end GeoPattern
