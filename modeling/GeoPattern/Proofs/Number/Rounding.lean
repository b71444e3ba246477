/-
Rounding in the rational numbers: to the nearest whole number, to a count of fraction digits and to
a count of significant digits, a tie always going to the even neighbour. The quotients that the
library rounds are rounded as these functions say.
-/
import GeoPattern.Rounding
import Mathlib.Data.Int.Log
import Mathlib.Data.Rat.Floor
import Mathlib.Algebra.Order.Floor.Semifield
import Mathlib.Algebra.Order.Field.Power
import Mathlib.Tactic

namespace GeoPattern

/-! ## To whole numbers -/

/-- The whole number nearest to `x`; of two equally near ones the even one. -/
def nearestEven (x : ℚ) : ℤ :=
  if x - ⌊x⌋ < 1 / 2 then ⌊x⌋ else if 1 / 2 < x - ⌊x⌋ then ⌊x⌋ + 1 else ⌊x⌋ + ⌊x⌋ % 2

theorem nearestEven_eq_floor_or (x : ℚ) :
    (nearestEven x = ⌊x⌋ ∧ x - ⌊x⌋ ≤ 1 / 2) ∨ (nearestEven x = ⌊x⌋ + 1 ∧ 1 / 2 ≤ x - ⌊x⌋) := by
  unfold nearestEven
  split_ifs with h1 h2
  · exact .inl ⟨rfl, h1.le⟩
  · exact .inr ⟨rfl, h2.le⟩
  -- a tie goes up from an odd floor only
  · have he : x - ⌊x⌋ = 1 / 2 := le_antisymm (not_lt.1 h2) (not_lt.1 h1)
    rcases Int.emod_two_eq_zero_or_one ⌊x⌋ with h | h
    · exact .inl ⟨by omega, he.le⟩
    · exact .inr ⟨by omega, he.ge⟩

theorem abs_nearestEven_sub_le (x : ℚ) : |(nearestEven x : ℚ) - x| ≤ 1 / 2 := by
  have h0 := Int.floor_le x
  have h1 := Int.lt_floor_add_one x
  rw [abs_le]
  rcases nearestEven_eq_floor_or x with ⟨h, hx⟩ | ⟨h, hx⟩ <;> rw [h] <;> push_cast <;>
    constructor <;> linarith

/-- A whole number less than a half away is the nearest one. -/
theorem nearestEven_eq_of_abs_sub_lt {x : ℚ} {n : ℤ} (h : |x - n| < 1 / 2) : nearestEven x = n := by
  have h' := abs_nearestEven_sub_le x
  have hlt : |(nearestEven x : ℚ) - n| < 1 := by
    calc |(nearestEven x : ℚ) - n| = |((nearestEven x : ℚ) - x) + (x - n)| := by ring_nf
      _ ≤ |(nearestEven x : ℚ) - x| + |x - n| := abs_add_le _ _
      _ < 1 := by linarith
  have : |nearestEven x - n| < 1 := by exact_mod_cast hlt
  rw [Int.abs_lt_one_iff] at this
  omega

@[simp] theorem nearestEven_intCast (n : ℤ) : nearestEven n = n :=
  nearestEven_eq_of_abs_sub_lt (by simp)

@[simp] theorem nearestEven_natCast (n : ℕ) : nearestEven n = n := by
  exact_mod_cast nearestEven_intCast n

theorem nearestEven_mono : Monotone nearestEven := by
  intro x y hxy
  have hfloor : ⌊x⌋ ≤ ⌊y⌋ := Int.floor_mono hxy
  -- different floors keep the roundings in order, with equal ones the fractions decide
  rcases hfloor.lt_or_eq with hlt | heq
  · rcases nearestEven_eq_floor_or x with ⟨hx, -⟩ | ⟨hx, -⟩ <;>
      rcases nearestEven_eq_floor_or y with ⟨hy, -⟩ | ⟨hy, -⟩ <;> omega
  · unfold nearestEven
    rw [heq]
    have h0 := Int.emod_nonneg ⌊y⌋ (by decide : (2 : ℤ) ≠ 0)
    have h1 := Int.emod_lt_of_pos ⌊y⌋ (by decide : (0 : ℤ) < 2)
    split_ifs <;> first | omega | (exfalso; linarith)

/-- Quotients of natural numbers are rounded to the nearest whole number. -/
theorem nearestEven_natCast_div (num den : ℕ) (hd : 0 < den) :
    nearestEven ((num : ℚ) / den) = roundHalfEven num den := by
  have hdq : (0 : ℚ) < den := by exact_mod_cast hd
  have hfloor : ⌊(num : ℚ) / den⌋ = ((num / den : ℕ) : ℤ) := by
    rw [Rat.floor_natCast_div_natCast]; push_cast; rfl
  have hfrac : (num : ℚ) / den - ((num / den : ℕ) : ℤ) = ((num % den : ℕ) : ℚ) / den := by
    have e : (num : ℚ) = den * ((num / den : ℕ) : ℚ) + ((num % den : ℕ) : ℚ) := by
      exact_mod_cast (Nat.div_add_mod num den).symm
    rw [e, Int.cast_natCast]; field_simp; ring_nf
  -- the remainder is compared with half of the divisor
  have hlt : ((num % den : ℕ) : ℚ) / den < 1 / 2 ↔ 2 * (num % den) < den := by
    rw [div_lt_div_iff₀ hdq (by norm_num), one_mul, mul_comm]
    exact_mod_cast Iff.rfl
  have hgt : 1 / 2 < ((num % den : ℕ) : ℚ) / den ↔ den < 2 * (num % den) := by
    rw [div_lt_div_iff₀ (by norm_num) hdq, one_mul, mul_comm]
    exact_mod_cast Iff.rfl
  unfold nearestEven roundHalfEven
  rw [hfloor, hfrac]
  simp only [hlt, hgt]
  split_ifs <;> push_cast <;> rfl

/-! ## To fraction digits -/

/-- `x` rounded to a count of fraction digits. -/
def toPlaces (places : ℕ) (x : ℚ) : ℚ := nearestEven (x * 10 ^ places) / 10 ^ places

theorem ten_pow_pos (n : ℕ) : (0 : ℚ) < 10 ^ n := by positivity

theorem toPlaces_eq_iff {places : ℕ} {x y : ℚ} :
    toPlaces places x = y ↔ (nearestEven (x * 10 ^ places) : ℚ) = y * 10 ^ places := by
  unfold toPlaces
  rw [div_eq_iff (ten_pow_pos places).ne']

/-- A number with no more fraction digits stays. -/
theorem toPlaces_of_mul_eq {places : ℕ} {x : ℚ} {n : ℤ} (h : x * 10 ^ places = n) :
    toPlaces places x = x := by
  rw [toPlaces_eq_iff, h, nearestEven_intCast]

theorem toPlaces_mul_ten_pow (places : ℕ) (x : ℚ) :
    toPlaces places x * 10 ^ places = nearestEven (x * 10 ^ places) :=
  div_mul_cancel₀ _ (ten_pow_pos places).ne'

theorem exists_toPlaces_mul_eq (places : ℕ) (x : ℚ) :
    ∃ n : ℤ, toPlaces places x * 10 ^ places = n :=
  ⟨_, toPlaces_mul_ten_pow places x⟩

theorem abs_toPlaces_sub_le (places : ℕ) (x : ℚ) :
    |toPlaces places x - x| ≤ 1 / 2 / 10 ^ places := by
  have h := abs_nearestEven_sub_le (x * 10 ^ places)
  have hp := ten_pow_pos places
  unfold toPlaces
  calc |(nearestEven (x * 10 ^ places) : ℚ) / 10 ^ places - x|
      = |((nearestEven (x * 10 ^ places) : ℚ) - x * 10 ^ places) / 10 ^ places| := by
        rw [sub_div, mul_div_cancel_right₀ _ hp.ne']
    _ = |(nearestEven (x * 10 ^ places) : ℚ) - x * 10 ^ places| / 10 ^ places := by
        rw [abs_div, abs_of_pos hp]
    _ ≤ 1 / 2 / 10 ^ places := by gcongr

theorem toPlaces_mono (places : ℕ) : Monotone (toPlaces places) := by
  intro x y hxy
  have hp := ten_pow_pos places
  unfold toPlaces
  have := nearestEven_mono (mul_le_mul_of_nonneg_right hxy hp.le)
  gcongr

@[simp] theorem toPlaces_natCast (places n : ℕ) : toPlaces places n = n :=
  toPlaces_of_mul_eq (show (n : ℚ) * 10 ^ places = ((n * 10 ^ places : ℤ) : ℚ) by push_cast; rfl)

@[simp] theorem toPlaces_zero (places : ℕ) : toPlaces places 0 = 0 := by
  exact_mod_cast toPlaces_natCast places 0

theorem toPlaces_nonneg (places : ℕ) {x : ℚ} (hx : 0 ≤ x) : 0 ≤ toPlaces places x := by
  rw [← toPlaces_zero places]
  exact toPlaces_mono places hx

/-- A number with the right count of fraction digits that lies less than half a unit away is what
rounding gives. -/
theorem toPlaces_eq_of_abs_sub_lt {places : ℕ} {x y : ℚ} {n : ℤ} (hy : y * 10 ^ places = n)
    (h : |x - y| < 1 / 2 / 10 ^ places) : toPlaces places x = y := by
  have hp := ten_pow_pos places
  rw [toPlaces_eq_iff, hy]
  congr 1
  apply nearestEven_eq_of_abs_sub_lt
  calc |x * 10 ^ places - n| = |x - y| * 10 ^ places := by
        rw [← hy, ← sub_mul, abs_mul, abs_of_pos hp]
    _ < 1 / 2 := (lt_div_iff₀ hp).1 h

/-! ## To significant digits -/

/-- The power of ten of the last of `digits` significant digits of `x`. -/
def lastDigit (digits : ℕ) (x : ℚ) : ℤ := Int.log 10 x - (digits - 1)

/-- `x` rounded to a count of significant digits. -/
def toSignificant (digits : ℕ) (x : ℚ) : ℚ :=
  nearestEven (x / 10 ^ lastDigit digits x) * 10 ^ lastDigit digits x

theorem ten_zpow_pos (t : ℤ) : (0 : ℚ) < 10 ^ t := by positivity

@[simp] theorem toSignificant_zero (digits : ℕ) : toSignificant digits 0 = 0 := by
  rw [toSignificant, zero_div, show nearestEven 0 = 0 from nearestEven_intCast 0]
  simp

/-- A number whose digits all stand at or before the last one that is kept stays. -/
theorem toSignificant_of_eq {digits : ℕ} {x : ℚ} {n e : ℤ} (h : x = n * 10 ^ e)
    (he : lastDigit digits x ≤ e) : toSignificant digits x = x := by
  obtain ⟨k, hk⟩ := Int.eq_ofNat_of_zero_le (sub_nonneg.2 he)
  have hp := ten_zpow_pos (lastDigit digits x)
  have hx : x / 10 ^ lastDigit digits x = ((n * 10 ^ k : ℤ) : ℚ) := by
    rw [div_eq_iff hp.ne']
    conv_lhs => rw [h]
    push_cast
    rw [mul_assoc, ← zpow_natCast, ← zpow_add₀ (by norm_num)]
    congr 2
    omega
  rw [toSignificant, hx, nearestEven_intCast, ← hx, div_mul_cancel₀ _ hp.ne']

/-- The rounding changes the last digit that is kept by half at most. -/
theorem abs_toSignificant_sub_le (digits : ℕ) (x : ℚ) :
    |toSignificant digits x - x| ≤ 1 / 2 * 10 ^ lastDigit digits x := by
  have hp := ten_zpow_pos (lastDigit digits x)
  have h := abs_nearestEven_sub_le (x / 10 ^ lastDigit digits x)
  calc |toSignificant digits x - x|
      = |(nearestEven (x / 10 ^ lastDigit digits x) - x / 10 ^ lastDigit digits x) *
          10 ^ lastDigit digits x| := by
        rw [sub_mul, div_mul_cancel₀ _ hp.ne']; rfl
    _ = |nearestEven (x / 10 ^ lastDigit digits x) - x / 10 ^ lastDigit digits x| *
          10 ^ lastDigit digits x := by rw [abs_mul, abs_of_pos hp]
    _ ≤ 1 / 2 * 10 ^ lastDigit digits x := by gcongr

/-- The rounding keeps a number at or above the power of ten of its first digit. -/
theorem zpow_log_le_toSignificant {digits : ℕ} (hd : 0 < digits) {x : ℚ} (hx : 0 < x) :
    10 ^ Int.log 10 x ≤ toSignificant digits x := by
  obtain ⟨k, rfl⟩ : ∃ k, digits = k + 1 := ⟨digits - 1, by omega⟩
  have hp := ten_zpow_pos (lastDigit (k + 1) x)
  have hlog : (10 : ℚ) ^ Int.log 10 x = 10 ^ k * 10 ^ lastDigit (k + 1) x := by
    rw [← zpow_natCast, ← zpow_add₀ (by norm_num), lastDigit]
    congr 1
    push_cast
    ring
  have hle : ((10 ^ k : ℤ) : ℚ) ≤ x / 10 ^ lastDigit (k + 1) x := by
    rw [le_div_iff₀ hp]
    push_cast
    rw [← hlog]
    exact_mod_cast Int.zpow_log_le_self (b := 10) (by norm_num) hx
  have hround := nearestEven_mono hle
  rw [nearestEven_intCast] at hround
  rw [hlog, toSignificant]
  gcongr
  exact_mod_cast hround

/-- The rounding does not pass the next power of ten. -/
theorem toSignificant_le_zpow_log (digits : ℕ) (x : ℚ) :
    toSignificant digits x ≤ 10 ^ (Int.log 10 x + 1) := by
  have hp := ten_zpow_pos (lastDigit digits x)
  have hlog : (10 : ℚ) ^ (Int.log 10 x + 1) = 10 ^ digits * 10 ^ lastDigit digits x := by
    rw [← zpow_natCast, ← zpow_add₀ (by norm_num), lastDigit]
    congr 1
    ring
  have hle : x / 10 ^ lastDigit digits x ≤ ((10 ^ digits : ℤ) : ℚ) := by
    rw [div_le_iff₀ hp]
    push_cast
    rw [← hlog]
    exact_mod_cast (Int.lt_zpow_succ_log_self (b := 10) (by norm_num) x).le
  have hround := nearestEven_mono hle
  rw [nearestEven_intCast] at hround
  rw [hlog, toSignificant]
  gcongr
  exact_mod_cast hround

/-- Rounding to significant digits keeps the order, also where the first digit moves. -/
theorem toSignificant_mono {digits : ℕ} (hd : 0 < digits) {x y : ℚ} (hx : 0 ≤ x) (hxy : x ≤ y) :
    toSignificant digits x ≤ toSignificant digits y := by
  rcases hx.eq_or_lt with rfl | hx
  · rw [toSignificant_zero]
    rcases hxy.eq_or_lt with rfl | hy
    · rw [toSignificant_zero]
    · exact (ten_zpow_pos _).le.trans (zpow_log_le_toSignificant hd hy)
  have hy := hx.trans_le hxy
  rcases (Int.log_mono_right (b := 10) hx hxy).lt_or_eq with hlt | heq
  -- a power of ten lies between numbers with different first digits
  · calc toSignificant digits x
        ≤ 10 ^ (Int.log 10 x + 1) := toSignificant_le_zpow_log digits x
      _ ≤ 10 ^ Int.log 10 y := zpow_le_zpow_right₀ (by norm_num) hlt
      _ ≤ toSignificant digits y := zpow_log_le_toSignificant hd hy
  -- otherwise the same digit is the last one that is kept
  · have hlast : lastDigit digits x = lastDigit digits y := by rw [lastDigit, heq, lastDigit]
    have hp := ten_zpow_pos (lastDigit digits y)
    have hround := nearestEven_mono (div_le_div_of_nonneg_right hxy hp.le)
    rw [toSignificant, toSignificant, hlast]
    gcongr

theorem toSignificant_eq_zero_iff {digits : ℕ} (hd : 0 < digits) {x : ℚ} (hx : 0 ≤ x) :
    toSignificant digits x = 0 ↔ x = 0 := by
  refine ⟨fun h => ?_, fun h => by rw [h, toSignificant_zero]⟩
  rcases hx.eq_or_lt with h0 | hpos
  · exact h0.symm
  · have := zpow_log_le_toSignificant hd hpos
    rw [h] at this
    exact absurd this (not_le.2 (ten_zpow_pos _))

end GeoPattern
