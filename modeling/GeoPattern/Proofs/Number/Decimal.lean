/-
Decimals as rational numbers. A product is the exact one rounded to 28 significant digits, a
quantised number is the exact one rounded to its fraction digits, and a division leaves nothing
over but its remainder.
Main statements: `toRat_times`, `toRat_of_quantize`, `divMod_spec`.
-/
import GeoPattern.Decimal
import GeoPattern.Proofs.Number.Rounding

namespace GeoPattern

/-! ## Counting digits -/

theorem digitCount_pos (n : ℕ) : 0 < digitCount n := by
  unfold digitCount
  split <;> omega

theorem lt_ten_pow_digitCount (n : ℕ) : n < 10 ^ digitCount n := by
  induction n using digitCount.induct with
  | case1 n h => rw [digitCount, if_pos h]; omega
  | case2 n h ih =>
    rw [digitCount, if_neg h, pow_succ]
    omega

theorem ten_pow_digitCount_le {n : ℕ} (hn : n ≠ 0) : 10 ^ (digitCount n - 1) ≤ n := by
  induction n using digitCount.induct with
  | case1 n h => rw [digitCount, if_pos h]; exact Nat.pos_of_ne_zero hn
  | case2 n h ih =>
    have hp := digitCount_pos (n / 10)
    have ih' := ih (by omega)
    obtain ⟨k, hk⟩ : ∃ k, digitCount (n / 10) = k + 1 := ⟨digitCount (n / 10) - 1, by omega⟩
    rw [hk, Nat.add_sub_cancel] at ih'
    rw [digitCount, if_neg h, Nat.add_sub_cancel, hk, pow_succ]
    omega

namespace Decimal

/-- The number that a decimal denotes. -/
def toRat (x : Decimal) : ℚ := x.coefficient * 10 ^ x.exponent

theorem toRat_nonneg (x : Decimal) : 0 ≤ x.toRat := by
  unfold toRat
  positivity

@[simp] theorem toRat_zero : zero.toRat = 0 := by simp [toRat, zero]

@[simp] theorem toRat_whole (n : ℕ) : toRat ⟨n, 0⟩ = n := by simp [toRat]

theorem ten_zpow_eq_div (e : ℤ) : (10 : ℚ) ^ e = 10 ^ e.toNat / 10 ^ (-e).toNat := by
  rw [eq_div_iff (ten_pow_pos _).ne', ← zpow_natCast, ← zpow_natCast, ← zpow_add₀ (by norm_num)]
  congr 1
  omega

/-- A decimal is a quotient of natural numbers. -/
theorem toRat_eq_div (x : Decimal) :
    x.toRat = ((x.coefficient * 10 ^ x.exponent.toNat : ℕ) : ℚ) / (10 ^ (-x.exponent).toNat : ℕ) := by
  rw [toRat, ten_zpow_eq_div]
  push_cast
  ring

theorem toRat_eq_zero_iff (x : Decimal) : x.toRat = 0 ↔ x.coefficient = 0 := by
  have := ten_zpow_pos x.exponent
  rw [toRat, mul_eq_zero, Nat.cast_eq_zero, or_iff_left this.ne']

/-! ## Significant digits -/

/-- The first digit of a decimal is that of its coefficient. -/
theorem log_toRat {x : Decimal} (h : x.coefficient ≠ 0) :
    Int.log 10 x.toRat = digitCount x.coefficient - 1 + x.exponent := by
  have hp := digitCount_pos x.coefficient
  have hle : ((10 : ℕ) : ℚ) ^ ((digitCount x.coefficient : ℤ) - 1 + x.exponent) ≤ x.toRat := by
    rw [zpow_add₀ (by norm_num), toRat,
      show (digitCount x.coefficient : ℤ) - 1 = (digitCount x.coefficient - 1 : ℕ) by omega,
      zpow_natCast]
    push_cast
    gcongr
    exact_mod_cast ten_pow_digitCount_le h
  have hlt : x.toRat < ((10 : ℕ) : ℚ) ^ ((digitCount x.coefficient : ℤ) - 1 + x.exponent + 1) := by
    rw [show (digitCount x.coefficient : ℤ) - 1 + x.exponent + 1
      = digitCount x.coefficient + x.exponent by ring, zpow_add₀ (by norm_num), toRat, zpow_natCast]
    push_cast
    gcongr
    exact_mod_cast lt_ten_pow_digitCount x.coefficient
  have hpos : 0 < x.toRat :=
    lt_of_le_of_ne x.toRat_nonneg fun h0 => h (x.toRat_eq_zero_iff.1 h0.symm)
  have h1 := (Int.zpow_le_iff_le_log (by norm_num) hpos).1 hle
  have h2 := (Int.lt_zpow_iff_log_lt (by norm_num) hpos).1 hlt
  omega

theorem lastDigit_toRat {x : Decimal} (h : x.coefficient ≠ 0) :
    lastDigit precision x.toRat = x.exponent + (digitCount x.coefficient - precision) := by
  rw [lastDigit, log_toRat h]
  ring

theorem toRat_rounded (x : Decimal) : x.rounded.toRat = toSignificant precision x.toRat := by
  -- zero has no first digit, so no digit of it is the last one that is kept
  by_cases h : x.coefficient = 0
  · have h0 := x.toRat_eq_zero_iff.2 h
    have hx : x.rounded = x := by
      have hone : digitCount 0 = 1 := by rw [digitCount, if_pos (by decide)]
      unfold rounded
      rw [h, hone]
      rfl
    rw [hx, h0, toSignificant_zero]
  have hlast := lastDigit_toRat h
  unfold rounded
  dsimp only
  split
  -- no more than 28 digits: nothing is cut off
  · rename_i hexcess
    have he : lastDigit precision x.toRat ≤ x.exponent := by omega
    exact (toSignificant_of_eq (by rw [toRat]; rfl) he).symm
  · rename_i hexcess
    generalize he : digitCount x.coefficient - precision = excess at hexcess ⊢
    have hlast' : lastDigit precision x.toRat = x.exponent + excess := by omega
    have hq : x.toRat / 10 ^ (x.exponent + excess)
        = (x.coefficient : ℚ) / ((10 ^ excess : ℕ) : ℚ) := by
      rw [zpow_add₀ (by norm_num), zpow_natCast, toRat, Nat.cast_pow, Nat.cast_ofNat]
      have := ten_zpow_pos x.exponent
      field_simp
    rw [toSignificant, hlast', hq, nearestEven_natCast_div _ _ (by positivity), toRat]
    rfl

/-- A product is the exact one, rounded to 28 significant digits. -/
theorem toRat_times (x : Decimal) (n : ℕ) :
    (x.times n).toRat = toSignificant precision (x.toRat * n) := by
  rw [times, toRat_rounded]
  congr 1
  simp only [toRat]
  push_cast
  ring

theorem le_exponent_times (x : Decimal) (n : ℕ) : x.exponent ≤ (x.times n).exponent := by
  unfold times rounded
  dsimp only
  split
  · exact le_rfl
  · exact Int.le_add_of_nonneg_right (by positivity)

/-! ## Fraction digits -/

theorem scaled_eq (x : Decimal) (places : ℤ) :
    (x.scaled places : ℤ) = nearestEven (x.toRat * 10 ^ places) := by
  have hx : x.toRat * 10 ^ places = x.coefficient * 10 ^ (x.exponent + places) := by
    rw [toRat, zpow_add₀ (by norm_num)]
    ring
  rw [hx]
  unfold scaled
  extract_lets shift
  split
  · rename_i h
    obtain ⟨k, hk⟩ := Int.eq_ofNat_of_zero_le h
    rw [show shift = k from hk, show x.exponent + places = k from hk, Int.toNat_natCast,
      zpow_natCast]
    have := nearestEven_natCast (x.coefficient * 10 ^ k)
    push_cast at this ⊢
    rw [this]
  · rename_i h
    obtain ⟨k, hk⟩ := Int.eq_ofNat_of_zero_le (show 0 ≤ -(x.exponent + places) by omega)
    rw [show -shift = k from hk, show x.exponent + places = -(k : ℤ) by omega, zpow_neg,
      zpow_natCast, Int.toNat_natCast, ← div_eq_mul_inv]
    have := nearestEven_natCast_div x.coefficient (10 ^ k) (by positivity)
    push_cast at this
    rw [this]

theorem quantize_eq_ok_iff {x y : Decimal} {places : ℤ} :
    x.quantize places = .ok y ↔ places.natAbs ≤ shiftLimit ∧ -(exponentSpan : ℤ) ≤ places ∧
      x.scaled (min places finestPlaces) < coefficientLimit ∧
      y = ⟨x.scaled (min places finestPlaces), -min places finestPlaces⟩ := by
  unfold quantize
  dsimp only
  split
  · rename_i h
    exact ⟨nofun, fun hq => absurd hq.1 (by omega)⟩
  rename_i h1
  split
  · rename_i h
    exact ⟨nofun, fun hq => absurd hq.2.1 (by omega)⟩
  rename_i h2
  split
  · rename_i h3
    constructor
    · rintro hq
      cases hq
      exact ⟨by omega, by omega, h3, rfl⟩
    · rintro ⟨-, -, -, rfl⟩
      rfl
  · rename_i h3
    exact ⟨nofun, fun hq => absurd hq.2.2.1 h3⟩

/-- A quantised number has the fraction digits that were asked for, as far as numbers have so
many. -/
theorem exponent_of_quantize {x y : Decimal} {places : ℕ} (h : x.quantize places = .ok y) :
    y.exponent = -(min places finestPlaces : ℕ) := by
  obtain ⟨-, -, -, rfl⟩ := quantize_eq_ok_iff.1 h
  push_cast
  rfl

theorem coefficient_lt_of_quantize {x y : Decimal} {places : ℤ} (h : x.quantize places = .ok y) :
    y.coefficient < coefficientLimit := by
  obtain ⟨-, -, hlt, rfl⟩ := quantize_eq_ok_iff.1 h
  exact hlt

/-- The exponents that come from doubles: their last digit stands far in front of the finest one. -/
def Coarse (x : Decimal) : Prop := -1074 ≤ x.exponent

theorem coarse_ofMagnitude (m : Magnitude) : (ofMagnitude m).Coarse := le_rfl

theorem Coarse.times {x : Decimal} (h : x.Coarse) (n : ℕ) : (x.times n).Coarse :=
  le_trans h (x.le_exponent_times n)

/-- Rounding to places beyond the last digit of a double changes nothing. -/
theorem toPlaces_of_coarse {x : Decimal} (hx : x.Coarse) {places : ℕ} (hp : 1074 ≤ places) :
    toPlaces places x.toRat = x.toRat := by
  obtain ⟨k, hk⟩ : ∃ k : ℕ, x.exponent + places = k :=
    Int.eq_ofNat_of_zero_le (by unfold Coarse at hx; omega)
  have hwhole : x.toRat * 10 ^ places = ((x.coefficient * 10 ^ k : ℤ) : ℚ) := by
    rw [toRat, ← zpow_natCast (10 : ℚ) places, mul_assoc, ← zpow_add₀ (by norm_num), hk,
      zpow_natCast]
    push_cast
    rfl
  exact toPlaces_of_mul_eq hwhole

/-- Numbers that are equal up to their fraction digits are quantised alike. -/
theorem quantize_congr {x y : Decimal} (hx : x.Coarse) (hy : y.Coarse) {places : ℕ}
    (h : toPlaces places x.toRat = toPlaces places y.toRat) :
    x.quantize places = y.quantize places := by
  have hscaled : x.scaled (min places finestPlaces) = y.scaled (min places finestPlaces) := by
    have hnearest : (x.scaled (min places finestPlaces) : ℤ) =
        y.scaled (min places finestPlaces) := by
      rw [scaled_eq, scaled_eq]
      rcases le_or_gt places finestPlaces with hp | hp
      · rw [min_eq_left (by exact_mod_cast hp), zpow_natCast]
        exact_mod_cast (div_left_inj' (ten_pow_pos places).ne').1 h
      -- with so many digits the numbers are equal
      · have hspan : 1074 ≤ finestPlaces := by decide
        rw [toPlaces_of_coarse hx (by omega), toPlaces_of_coarse hy (by omega)] at h
        rw [h]
    exact_mod_cast hnearest
  unfold quantize
  dsimp only
  rw [hscaled]

theorem scaled_of_toRat_eq_zero {x : Decimal} (h : x.toRat = 0) (places : ℤ) :
    x.scaled places = 0 := by
  have := x.scaled_eq places
  rw [h, zero_mul, show nearestEven 0 = 0 from nearestEven_intCast 0] at this
  exact_mod_cast this

/-- Only zero has room for more than the finest fraction digits. -/
theorem coefficient_eq_zero_of_scaled {x : Decimal} (hx : x.Coarse) {places : ℤ}
    (hp : finestPlaces ≤ places) (h : x.scaled places < coefficientLimit) : x.coefficient = 0 := by
  have hspan : (1102 : ℤ) ≤ finestPlaces := by decide
  have hge : 28 ≤ x.exponent + places := by
    unfold Coarse at hx
    omega
  unfold scaled at h
  rw [if_pos (by omega)] at h
  by_contra hne
  have hpow : 10 ^ 28 ≤ 10 ^ (x.exponent + places).toNat :=
    Nat.pow_le_pow_right (by norm_num) (by omega)
  have := Nat.le_mul_of_pos_left (10 ^ (x.exponent + places).toNat) (Nat.pos_of_ne_zero hne)
  exact absurd (le_trans hpow this) (by rw [not_le]; exact h)

/-- Beyond the finest place there is only zero. -/
theorem toRat_eq_zero_of_quantize {x y : Decimal} (hx : x.Coarse) {places : ℕ}
    (hp : finestPlaces < places) (h : x.quantize places = .ok y) : x.toRat = 0 := by
  obtain ⟨-, -, hlt, -⟩ := quantize_eq_ok_iff.1 h
  rw [min_eq_right (by exact_mod_cast hp.le)] at hlt
  exact x.toRat_eq_zero_iff.2 (coefficient_eq_zero_of_scaled hx le_rfl hlt)

/-- A quantised number is the exact one, rounded to the fraction digits. -/
theorem toRat_of_quantize {x y : Decimal} (hx : x.Coarse) {places : ℕ}
    (h : x.quantize places = .ok y) : y.toRat = toPlaces places x.toRat := by
  obtain ⟨-, -, -, hy⟩ := quantize_eq_ok_iff.1 h
  by_cases hp : places ≤ finestPlaces
  · rw [min_eq_left (by exact_mod_cast hp)] at hy
    rw [hy, toRat, toPlaces]
    dsimp only
    rw [zpow_neg, ← div_eq_mul_inv, zpow_natCast]
    congr 1
    have := x.scaled_eq places
    rw [zpow_natCast] at this
    exact_mod_cast congrArg (Int.cast (R := ℚ)) this
  -- every rounding keeps zero
  · have hx0 := toRat_eq_zero_of_quantize hx (not_le.1 hp) h
    have hy0 : y.coefficient = 0 := by
      rw [hy]
      exact scaled_of_toRat_eq_zero hx0 _
    rw [y.toRat_eq_zero_iff.2 hy0, hx0, toPlaces_zero]

/-! ## Division -/

/-- The whole quotient and the remainder of a division. -/
theorem divMod_spec {x r : Decimal} {n q : ℕ} (hn : 0 < n) (h : x.divMod n = .ok (q, r)) :
    x.toRat = q * n + r.toRat ∧ r.toRat < n := by
  unfold divMod at h
  dsimp only at h
  split at h
  · cases h
    -- both numbers are counted in the last digit of the dividend, and divided as natural numbers
    generalize hw : x.coefficient * 10 ^ x.exponent.toNat = whole
    have hten : (0 : ℚ) < (10 ^ (-x.exponent).toNat : ℕ) := by positivity
    have hr : toRat ⟨whole % (n * 10 ^ (-x.exponent).toNat), min x.exponent 0⟩
        = ((whole % (n * 10 ^ (-x.exponent).toNat) : ℕ) : ℚ) / (10 ^ (-x.exponent).toNat : ℕ) := by
      rw [toRat, div_eq_mul_inv]
      dsimp only
      rw [show min x.exponent 0 = -((-x.exponent).toNat : ℤ) by omega, zpow_neg, zpow_natCast]
      push_cast
      rfl
    rw [hr, x.toRat_eq_div, hw]
    generalize 10 ^ (-x.exponent).toNat = ten at *
    have hten' : 0 < ten := by exact_mod_cast hten
    constructor
    · rw [div_eq_iff hten.ne', add_mul, div_mul_cancel₀ _ hten.ne']
      have := Nat.div_add_mod whole (n * ten)
      have hw' : whole = whole / (n * ten) * n * ten + whole % (n * ten) := by
        conv_lhs => rw [← this]
        ring
      exact_mod_cast hw'
    · rw [div_lt_iff₀ hten]
      exact_mod_cast Nat.mod_lt whole (Nat.mul_pos hn hten')
  · cases h

end Decimal

end GeoPattern
