/-
Doubles as rational numbers: the double nearest to a number that is not negative, and when it is
that number itself. Whole numbers up to `2 ^ 53` are doubles, and so is a double as a decimal;
below 64 a number is changed by less than half a unit of its fourteenth fraction digit.
-/
import GeoPattern.Proofs.Number.Decimal

namespace GeoPattern

/-! ## Magnitudes -/

theorem unitsPerOne_pos : (0 : ℚ) < unitsPerOne := by
  rw [unitsPerOne]
  positivity

/-- The exponent is kept out of sight, so that nothing tries to write the power out. -/
theorem exists_unitsPerOne_eq : ∃ e, 47 ≤ e ∧ unitsPerOne = 2 ^ e := by
  unfold unitsPerOne
  generalize he : 1074 = e
  exact ⟨e, by omega, rfl⟩

namespace Magnitude

/-- The number that a magnitude is. -/
def toRat (m : Magnitude) : ℚ := m.units / unitsPerOne

theorem toRat_nonneg (m : Magnitude) : 0 ≤ m.toRat :=
  div_nonneg (Nat.cast_nonneg _) unitsPerOne_pos.le

@[simp] theorem toRat_zero : zero.toRat = 0 := by
  unfold toRat zero
  rw [Nat.cast_zero, zero_div]

theorem toRat_eq_zero_iff (m : Magnitude) : m.toRat = 0 ↔ m.units = 0 := by
  rw [toRat, div_eq_zero_iff, or_iff_left unitsPerOne_pos.ne', Nat.cast_eq_zero]

end Magnitude

/-- A double is a decimal exactly. -/
@[simp] theorem Decimal.toRat_ofMagnitude (m : Magnitude) : (Decimal.ofMagnitude m).toRat = m.toRat := by
  rw [toRat, ofMagnitude, Magnitude.toRat, unitsPerOne]
  simp only [Nat.cast_mul, Nat.cast_pow, Nat.cast_ofNat]
  rw [zpow_neg, show (1074 : ℤ) = (1074 : ℕ) from rfl, zpow_natCast,
    show (10 : ℚ) = 5 * 2 by norm_num, mul_pow, mul_inv, mul_assoc, ← mul_assoc (5 ^ 1074),
    mul_inv_cancel₀ (pow_ne_zero _ (by norm_num)), one_mul, div_eq_mul_inv]

/-! ## Signs -/

/-- A number with a sign. -/
def signed (negative : Bool) (x : ℚ) : ℚ := if negative then -x else x

theorem signed_mul (negative : Bool) (x y : ℚ) : signed negative x * y = signed negative (x * y) := by
  unfold signed
  split
  · rw [neg_mul]
  · rfl

/-- A sign does not matter for a number that is rounded to zero, nor for zero itself. -/
theorem abs_signed_sub_le {shows negative : Bool} {x y e : ℚ} (h : |x - y| ≤ e)
    (hs : shows = negative ∨ x = 0 ∨ y = 0) : |signed shows x - signed negative y| ≤ e := by
  have hneg : |(-x) - (-y)| ≤ e := by rwa [neg_sub_neg, abs_sub_comm]
  unfold signed
  rcases hs with rfl | rfl | rfl
  · cases shows
    · exact h
    · exact hneg
  · cases shows <;> cases negative <;> simpa using h
  · cases shows <;> cases negative <;> simpa using h

theorem abs_signed (negative : Bool) {x : ℚ} (hx : 0 ≤ x) : |signed negative x| = x := by
  unfold signed
  split
  · rw [abs_neg, abs_of_nonneg hx]
  · exact abs_of_nonneg hx

theorem signed_neg_iff (negative : Bool) {x : ℚ} (hx : 0 ≤ x) :
    signed negative x < 0 ↔ negative = true ∧ x ≠ 0 := by
  cases negative with
  | true => simpa [signed] using hx.lt_iff_ne'
  | false => simpa [signed] using hx

/-! ## The nearest double -/

/-- The distance of neighbouring doubles at `x`. -/
def doubleSpacing (x : ℚ) : ℚ := spacing ⌊x * unitsPerOne⌋.toNat / unitsPerOne

/-- The double nearest to `x`, a tie going to the even significand, as if there were no largest
one. -/
def nearestDouble (x : ℚ) : ℚ := nearestEven (x / doubleSpacing x) * doubleSpacing x

theorem spacing_pos (units : ℕ) : 0 < spacing units := Nat.two_pow_pos _

theorem doubleSpacing_pos (x : ℚ) : 0 < doubleSpacing x :=
  div_pos (by exact_mod_cast spacing_pos _) unitsPerOne_pos

/-- A number of units is rounded to the nearest double. -/
theorem roundUnits_div (units den : ℕ) (hd : 0 < den) :
    (roundUnits units den : ℚ) / unitsPerOne = nearestDouble ((units : ℚ) / den / unitsPerOne) := by
  have hu := unitsPerOne_pos
  have hdq : (0 : ℚ) < den := by exact_mod_cast hd
  have hfloor : ⌊(units : ℚ) / den / unitsPerOne * unitsPerOne⌋.toNat = units / den := by
    rw [div_mul_cancel₀ _ hu.ne', Rat.floor_natCast_div_natCast, ← Int.natCast_ediv,
      Int.toNat_natCast]
  have hs : (0 : ℚ) < spacing (units / den) := by exact_mod_cast spacing_pos _
  have hx : (units : ℚ) / den / unitsPerOne / doubleSpacing ((units : ℚ) / den / unitsPerOne)
      = (units : ℚ) / (den * spacing (units / den) : ℕ) := by
    rw [doubleSpacing, hfloor]
    push_cast
    field_simp
  rw [nearestDouble, hx, nearestEven_natCast_div _ _ (Nat.mul_pos hd (spacing_pos _)),
    doubleSpacing, hfloor, roundUnits]
  push_cast
  ring

/-- A quotient is rounded to the nearest double. -/
theorem roundUnits_eq (num den : ℕ) (hd : 0 < den) :
    (roundUnits (num * unitsPerOne) den : ℚ) / unitsPerOne = nearestDouble ((num : ℚ) / den) := by
  have hu := unitsPerOne_pos
  rw [roundUnits_div _ _ hd, Nat.cast_mul, div_right_comm, mul_div_cancel_right₀ _ hu.ne']

theorem Double.exists_finite {x : Double} (h : x.isFinite = true) :
    ∃ negative m, x = .finite negative m := by
  cases x with
  | finite negative m => exact ⟨negative, m, rfl⟩
  | _ => cases h

theorem Double.ofUnits_eq_finite {negative sign : Bool} {num den : ℕ} {m : Magnitude}
    (h : ofUnits negative num den = .finite sign m) :
    sign = negative ∧ m.units = roundUnits num den := by
  unfold ofUnits Magnitude.nearest? at h
  split at h
  · rename_i hm
    split at hm
    · cases hm
      cases h
      exact ⟨rfl, rfl⟩
    · cases hm
  · cases h

/-- A finite quotient has the sign that was asked for. -/
theorem Double.exists_eq_of_isFinite {negative : Bool} {num den : ℕ}
    (h : (ofRatio negative num den).isFinite = true) :
    ∃ m, ofRatio negative num den = .finite negative m := by
  obtain ⟨sign, m, hm⟩ := exists_finite h
  obtain ⟨rfl, -⟩ := ofUnits_eq_finite hm
  exact ⟨m, hm⟩

/-- Where the nearest double is finite, it is the quotient rounded to a double. -/
theorem Double.toRat_ofRatio {negative sign : Bool} {num den : ℕ} {m : Magnitude} (hd : 0 < den)
    (h : ofRatio negative num den = .finite sign m) :
    sign = negative ∧ m.toRat = nearestDouble ((num : ℚ) / den) := by
  obtain ⟨hs, hm⟩ := Double.ofUnits_eq_finite h
  exact ⟨hs, by rw [Magnitude.toRat, hm, roundUnits_eq _ _ hd]⟩

theorem Decimal.toRat_toDouble {x : Decimal} {negative sign : Bool} {m : Magnitude}
    (h : x.toDouble negative = .finite sign m) :
    sign = negative ∧ m.toRat = nearestDouble x.toRat := by
  obtain ⟨hs, hm⟩ := Double.toRat_ofRatio (by positivity) h
  exact ⟨hs, by rw [hm, ← x.toRat_eq_div]⟩

/-- What is rounded to a power of two beyond the finite range is infinite. -/
theorem Double.ofUnits_cases (negative : Bool) (num den : ℕ) :
    (∃ m, ofUnits negative num den = .finite negative m) ∨
      ofUnits negative num den = .infinite negative ∧ 2 ^ exponentLimit ≤ roundUnits num den := by
  unfold ofUnits Magnitude.nearest?
  by_cases h : (roundUnits num den).log2 < exponentLimit
  · rw [dif_pos h]
    exact .inl ⟨_, rfl⟩
  · rw [dif_neg h]
    refine .inr ⟨rfl, (Nat.le_log2 ?_).1 (not_lt.1 h)⟩
    intro h0
    rw [h0] at h
    exact h (by decide)

/-- The double of a decimal is the nearest one, or infinite if that leaves the finite range. -/
theorem Decimal.toDouble_cases (x : Decimal) (negative : Bool) :
    (∃ m, x.toDouble negative = .finite negative m ∧ m.toRat = nearestDouble x.toRat) ∨
      x.toDouble negative = .infinite negative ∧
        (2 : ℚ) ^ exponentLimit / unitsPerOne ≤ nearestDouble x.toRat := by
  rcases Double.ofUnits_cases negative (x.coefficient * 10 ^ x.exponent.toNat * unitsPerOne)
    (10 ^ (-x.exponent).toNat) with ⟨m, hm⟩ | ⟨hinf, hle⟩
  · exact .inl ⟨m, hm, (toRat_toDouble hm).2⟩
  · refine .inr ⟨hinf, ?_⟩
    have hunits := Nat.cast_le (α := ℚ).2 hle
    rw [Nat.cast_pow, Nat.cast_ofNat] at hunits
    rw [x.toRat_eq_div, ← roundUnits_eq _ _ (by positivity)]
    exact div_le_div_of_nonneg_right hunits unitsPerOne_pos.le

/-- A rounding to a double changes a number by half the distance of its neighbours at most. -/
theorem abs_nearestDouble_sub_le (x : ℚ) : |nearestDouble x - x| ≤ doubleSpacing x / 2 := by
  have hs := doubleSpacing_pos x
  have h := abs_nearestEven_sub_le (x / doubleSpacing x)
  calc |nearestDouble x - x|
      = |(nearestEven (x / doubleSpacing x) - x / doubleSpacing x) * doubleSpacing x| := by
        rw [sub_mul, div_mul_cancel₀ _ hs.ne', nearestDouble]
    _ = |nearestEven (x / doubleSpacing x) - x / doubleSpacing x| * doubleSpacing x := by
        rw [abs_mul, abs_of_pos hs]
    _ ≤ 1 / 2 * doubleSpacing x := by gcongr
    _ = doubleSpacing x / 2 := by ring

/-! ## Numbers that are doubles -/

/-- A number of units that their spacing divides is its own nearest double. -/
theorem nearestDouble_units {units : ℕ} (h : spacing units ∣ units) :
    nearestDouble (units / unitsPerOne) = units / unitsPerOne := by
  have hu := unitsPerOne_pos
  obtain ⟨k, hk⟩ := h
  have hs : (0 : ℚ) < spacing units := by exact_mod_cast spacing_pos _
  have hq : (units : ℚ) / unitsPerOne / (spacing units / unitsPerOne) = (k : ℤ) := by
    rw [div_div_div_cancel_right₀ hu.ne', div_eq_iff hs.ne']
    conv_lhs => rw [hk]
    push_cast
    ring
  rw [nearestDouble, doubleSpacing, div_mul_cancel₀ _ hu.ne', Int.floor_natCast, Int.toNat_natCast,
    hq, nearestEven_intCast, ← hq, div_mul_cancel₀ _ (div_pos hs hu).ne']

@[simp] theorem nearestDouble_toRat (m : Magnitude) : nearestDouble m.toRat = m.toRat :=
  nearestDouble_units m.spacing_dvd

theorem nearestDouble_natCast {n : ℕ} (h : n ≤ 2 ^ 53) : nearestDouble n = n := by
  have hu := unitsPerOne_pos
  have := nearestDouble_units (spacing_dvd_mul n 1074 h)
  rwa [← unitsPerOne, Nat.cast_mul, mul_div_assoc, div_self hu.ne', mul_one] at this

/-- A number of units with many bits has as many trailing zeros as its spacing. -/
theorem two_pow_dvd_of_spacing_dvd {units k : ℕ} (hs : spacing units ∣ units)
    (h : 2 ^ 53 * 2 ^ k ≤ units) : 2 ^ k ∣ units := by
  rw [← Nat.pow_add] at h
  have hne : units ≠ 0 := by
    have := Nat.two_pow_pos (53 + k)
    omega
  have hlog : 53 + k ≤ units.log2 := (Nat.le_log2 hne).2 h
  exact (Nat.pow_dvd_pow 2 (by omega)).trans hs

/-- From `2 ^ 53` on the doubles are whole numbers. -/
theorem Magnitude.exists_natCast_of_le {m : Magnitude} (h : 2 ^ 53 ≤ m.toRat) :
    ∃ n : ℕ, m.toRat = n := by
  have hu := unitsPerOne_pos
  rw [toRat, le_div_iff₀ hu] at h
  have hle : 2 ^ 53 * unitsPerOne ≤ m.units := by exact_mod_cast h
  -- a magnitude of that many bits has its last one at or above the ones
  obtain ⟨k, hk⟩ : unitsPerOne ∣ m.units := by
    obtain ⟨e, -, he⟩ := exists_unitsPerOne_eq
    rw [he] at hle ⊢
    exact two_pow_dvd_of_spacing_dvd m.spacing_dvd hle
  refine ⟨k, ?_⟩
  rw [toRat, hk, div_eq_iff hu.ne']
  push_cast
  ring

/-! ## Fraction digits that survive -/

theorem spacing_mul_le {units j k : ℕ} (hj : j ≤ 53) (hk : j ≤ k)
    (h : units < 2 ^ (53 - j) * 2 ^ k) : spacing units * 2 ^ j ≤ 2 ^ k := by
  have hlog : units.log2 < 53 - j + k ∨ units = 0 := by
    rcases Nat.eq_zero_or_pos units with h0 | h0
    · exact .inr h0
    · left
      rwa [Nat.log2_lt h0.ne', Nat.pow_add]
  unfold spacing
  rw [← Nat.pow_add]
  apply Nat.pow_le_pow_right (by norm_num)
  rcases hlog with h | rfl
  · omega
  · rw [Nat.log2_zero]
    omega

/-- Below a power of two neighbouring doubles are at most `2 ^ 53` times closer. -/
theorem doubleSpacing_le {x : ℚ} {j : ℕ} (hj : j ≤ 47) (h : x < 2 ^ (53 - j)) :
    doubleSpacing x ≤ 1 / 2 ^ j := by
  have hu := unitsPerOne_pos
  rw [doubleSpacing, div_le_div_iff₀ hu (by positivity), one_mul]
  have hlt : ⌊x * unitsPerOne⌋.toNat < 2 ^ (53 - j) * unitsPerOne := by
    have hpos : 0 < 2 ^ (53 - j) * unitsPerOne := Nat.mul_pos (by positivity) (by exact_mod_cast hu)
    rw [Int.toNat_lt_of_ne_zero hpos.ne', Int.floor_lt]
    push_cast
    exact mul_lt_mul_of_pos_right h hu
  have : spacing ⌊x * unitsPerOne⌋.toNat * 2 ^ j ≤ unitsPerOne := by
    obtain ⟨e, hge, he⟩ := exists_unitsPerOne_eq
    rw [he] at hlt ⊢
    exact spacing_mul_le (by omega) (by omega) hlt
  exact_mod_cast this

/-- A number below 64 with up to fourteen fraction digits is found again after the detour through
a double. -/
theorem toPlaces_nearestDouble {places : ℕ} (hp : places ≤ 14) {x : ℚ} {n : ℤ}
    (hx : x * 10 ^ places = n) (h : x < 64) : toPlaces places (nearestDouble x) = x := by
  apply toPlaces_eq_of_abs_sub_lt hx
  -- half the distance of doubles is less than half a unit of the fourteenth digit
  have hten : (10 : ℚ) ^ places ≤ 10 ^ 14 := pow_le_pow_right₀ (by norm_num) hp
  calc |nearestDouble x - x| ≤ doubleSpacing x / 2 := abs_nearestDouble_sub_le x
    _ ≤ 1 / 2 ^ 47 / 2 := by
      have := doubleSpacing_le le_rfl (h.trans_le (by norm_num))
      gcongr
    _ < 1 / 2 / 10 ^ 14 := by norm_num
    _ ≤ 1 / 2 / 10 ^ places := by gcongr

end GeoPattern
