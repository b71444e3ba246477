/-
Binary floating-point numbers with 53 significant bits, held exactly: a finite double is a whole
multiple of the smallest subnormal, `2 ^ -1074`, so its magnitude is a natural number and every
comparison and every sum is one of natural numbers. An operation computes its exact result as a
quotient of natural numbers and rounds it once, to the nearest double, a tie going to the even
significand.
Main statement: `roundUnits` is a multiple of its own spacing (`spacing_dvd_roundUnits`), so that
rounding gives a double whenever it stays below the range.
-/
import GeoPattern.Rounding

namespace GeoPattern

-- powers of natural numbers are those of the core library, whatever else is imported
attribute [local instance (high)] instPowNat

/-! ## Magnitudes -/

/-- The distance of neighbouring doubles at a magnitude of `units`: one unit up to 53 bits, and a
power of two that leaves 53 bits beyond. -/
def spacing (units : Nat) : Nat := 2 ^ (units.log2 - 52)

/-- How many units make one. -/
def unitsPerOne : Nat := 2 ^ (1074 : Nat)

/-- The binary exponent of the first power of two that is no finite double any more, in units. -/
def exponentLimit : Nat := 2098

/-- The magnitude of a finite double, counted in units of `2 ^ -1074`. -/
structure Magnitude where
  units : Nat
  log2_units_lt : units.log2 < exponentLimit
  spacing_dvd : spacing units ∣ units
deriving DecidableEq

/-- The double magnitude nearest to `num / den` units, before the range is looked at. -/
def roundUnits (num den : Nat) : Nat :=
  roundHalfEven num (den * spacing (num / den)) * spacing (num / den)

theorem roundHalfEven_spacing_le (num den : Nat) :
    roundHalfEven num (den * spacing (num / den)) ≤ 2 ^ (53 : Nat) := by
  refine Nat.le_trans (roundHalfEven_le _ _) ?_
  rw [← Nat.div_div_eq_div_mul]
  generalize num / den = q
  have hs : 0 < spacing q := Nat.two_pow_pos _
  suffices h : q / spacing q < 2 ^ (53 : Nat) by omega
  rw [Nat.div_lt_iff_lt_mul hs]
  unfold spacing
  rw [← Nat.pow_add]
  refine Nat.lt_of_lt_of_le Nat.lt_log2_self (Nat.pow_le_pow_right (by decide) (by omega))

theorem spacing_dvd_mul (m e : Nat) (h : m ≤ 2 ^ (53 : Nat)) : spacing (m * 2 ^ e) ∣ m * 2 ^ e := by
  unfold spacing
  by_cases hm : m = 0
  · subst hm; simp
  have hpos : m * 2 ^ e ≠ 0 := Nat.mul_ne_zero hm (Nat.pos_iff_ne_zero.mp (Nat.two_pow_pos e))
  by_cases hlt : m < 2 ^ (53 : Nat)
  · have : (m * 2 ^ e).log2 < 53 + e := by
      rw [Nat.log2_lt hpos, Nat.pow_add]
      exact Nat.mul_lt_mul_of_pos_right hlt (Nat.two_pow_pos e)
    exact Nat.dvd_trans (Nat.pow_dvd_pow 2 (by omega)) (Nat.dvd_mul_left _ _)
  · obtain rfl : m = 2 ^ (53 : Nat) := by omega
    rw [← Nat.pow_add]
    exact Nat.pow_dvd_pow 2 (by rw [Nat.log2_two_pow]; omega)

/-- A rounded magnitude has at most 53 significant bits. -/
theorem spacing_dvd_roundUnits (num den : Nat) :
    spacing (roundUnits num den) ∣ roundUnits num den :=
  spacing_dvd_mul _ _ (roundHalfEven_spacing_le num den)

namespace Magnitude

def zero : Magnitude where
  units := 0
  log2_units_lt := by decide
  spacing_dvd := Nat.dvd_zero _

/-- The magnitude nearest to `num / den` units, unless it leaves the finite range. -/
def nearest? (num den : Nat) : Option Magnitude :=
  if h : (roundUnits num den).log2 < exponentLimit then
    some ⟨roundUnits num den, h, spacing_dvd_roundUnits num den⟩
  else none

end Magnitude

/-! ## Doubles -/

/-- A binary floating-point number; zero has a sign. -/
inductive Double where
  | nan
  | infinite (negative : Bool)
  | finite (negative : Bool) (magnitude : Magnitude)
deriving DecidableEq

namespace Double

def zero : Double := .finite false .zero

/-- The double nearest to `num / den` units, infinite beyond the range. -/
def ofUnits (negative : Bool) (num den : Nat) : Double :=
  match Magnitude.nearest? num den with
  | some magnitude => .finite negative magnitude
  | none => .infinite negative

/-- The double nearest to the quotient `num / den`, infinite beyond the range. -/
def ofRatio (negative : Bool) (num den : Nat) : Double :=
  ofUnits negative (num * unitsPerOne) den

/-- The double nearest to a whole number, unless the number is too large for a finite one. -/
def ofInt? (n : Int) : Option Double :=
  (Magnitude.nearest? (n.natAbs * unitsPerOne) 1).map (.finite (decide (n < 0)))

/-- The double nearest to a whole number, infinite beyond the range. -/
def ofInt (n : Int) : Double := ofRatio (decide (n < 0)) n.natAbs 1

/-! ## Tests -/

def isFinite : Double → Bool
  | .finite .. => true
  | _ => false

/-- Less than zero; neither zero is. -/
def isBelowZero : Double → Bool
  | .finite negative magnitude => negative && magnitude.units != 0
  | .infinite negative => negative
  | .nan => false

/-- At least zero; both zeros are, and what is no number is not. -/
def isAtLeastZero : Double → Bool
  | .finite negative magnitude => !negative || magnitude.units == 0
  | .infinite negative => !negative
  | .nan => false

/-! ## Arithmetic -/

def neg : Double → Double
  | .nan => .nan
  | .infinite negative => .infinite (!negative)
  | .finite negative magnitude => .finite (!negative) magnitude

def abs : Double → Double
  | .nan => .nan
  | .infinite _ => .infinite false
  | .finite _ magnitude => .finite false magnitude

/-- The whole part, rounded towards zero. -/
def truncate : Double → Double
  | .nan => .nan
  | .infinite negative => .infinite negative
  | .finite negative magnitude => ofRatio negative (magnitude.units / unitsPerOne) 1

/-- The signed number of units. -/
def signedUnits (negative : Bool) (magnitude : Magnitude) : Int :=
  if negative then -(magnitude.units : Int) else magnitude.units

/-- The rounded sum; an exact zero is negative only if both operands are. -/
def add : Double → Double → Double
  | .nan, _ => .nan
  | _, .nan => .nan
  | .infinite a, .infinite b => if a = b then .infinite a else .nan
  | .infinite a, .finite .. => .infinite a
  | .finite .., .infinite b => .infinite b
  | .finite a m, .finite b n =>
    let total := signedUnits a m + signedUnits b n
    if total = 0 then .finite (a && b) .zero
    else ofUnits (decide (total < 0)) total.natAbs 1

def sub (x y : Double) : Double := x.add y.neg

/-- The rounded product. -/
def mul : Double → Double → Double
  | .nan, _ => .nan
  | _, .nan => .nan
  | .infinite a, .infinite b => .infinite (a != b)
  | .infinite a, .finite b n => if n.units = 0 then .nan else .infinite (a != b)
  | .finite a m, .infinite b => if m.units = 0 then .nan else .infinite (a != b)
  | .finite a m, .finite b n => ofUnits (a != b) (m.units * n.units) unitsPerOne

/-- The rounded quotient by a positive whole number. -/
def divNat : Double → Nat → Double
  | .nan, _ => .nan
  | .infinite negative, _ => .infinite negative
  | .finite negative magnitude, n => ofUnits negative magnitude.units n

end Double

end GeoPattern
