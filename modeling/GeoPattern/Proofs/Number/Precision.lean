/-
Room for 28 digits. A decimal is rounded to its fraction digits exactly if the rounded number has no
more than 28 digits; beyond the greatest count of places that a power of ten is shifted by, zero is
refused as well. What is left of a total that has room is split without refusal.
Main statements: `quantize_eq_error_iff`, `exists_split`.
-/
import GeoPattern.Proofs.Number.Angle

namespace GeoPattern

/-! ## Decimals -/

namespace Decimal

variable {x : Decimal} {refusal : Refusal} {n q : ℕ} {r : Decimal}

theorem quantize_eq_error {places : ℕ} (h : x.quantize places = .error refusal) :
    refusal = .precision := by
  unfold quantize at h
  dsimp only at h
  split at h
  · cases h; rfl
  split at h
  · omega
  split at h
  · cases h
  · cases h; rfl

theorem divMod_eq_error (h : x.divMod n = .error refusal) : refusal = .precision := by
  unfold divMod at h
  dsimp only at h
  split at h
  · cases h
  · cases h; rfl

/-- A number is refused exactly if it has more than 28 digits when it is rounded. Only for zero the
count of places matters as well. -/
theorem quantize_eq_error_iff (hx : x.Coarse) {places : ℕ} :
    x.quantize places = .error .precision ↔
      10 ^ 28 ≤ toPlaces places x.toRat * 10 ^ places ∨ x.toRat = 0 ∧ shiftLimit < places := by
  have hspan : finestPlaces ≤ shiftLimit := by decide
  have hlimit : 10 ^ 28 ≤ toPlaces places x.toRat * 10 ^ places ↔
      coefficientLimit ≤ x.scaled places := by
    have hscaled := x.scaled_eq places
    rw [zpow_natCast] at hscaled
    rw [toPlaces_mul_ten_pow, ← hscaled]
    exact_mod_cast Iff.rfl
  have herror : x.quantize places = .error .precision ↔
      ¬ (places ≤ shiftLimit ∧ x.scaled (min places finestPlaces) < coefficientLimit) := by
    rcases hq : x.quantize places with e | y
    · obtain rfl := quantize_eq_error hq
      refine iff_of_true rfl fun ⟨h1, h2⟩ => ?_
      rw [quantize_eq_ok_iff.2 ⟨by omega, by omega, h2, rfl⟩] at hq
      cases hq
    · obtain ⟨h1, -, h2, -⟩ := quantize_eq_ok_iff.1 hq
      exact iff_of_false nofun fun h => h ⟨by omega, h2⟩
  rw [herror, hlimit]
  by_cases hp : places ≤ finestPlaces
  · rw [min_eq_left (by exact_mod_cast hp)]
    omega
  -- beyond the finest place a number has room for its digits only if it is zero
  · rw [min_eq_right (by omega)]
    by_cases hzero : x.toRat = 0
    · rw [scaled_of_toRat_eq_zero hzero, scaled_of_toRat_eq_zero hzero]
      have : 0 < coefficientLimit := by decide
      simp only [hzero, true_and]
      omega
    · have hlarge {e : ℤ} (he : finestPlaces ≤ e) : coefficientLimit ≤ x.scaled e := by
        by_contra h
        exact hzero (x.toRat_eq_zero_iff.2 (coefficient_eq_zero_of_scaled hx he (not_le.1 h)))
      have h1 := hlarge le_rfl
      have h2 := hlarge (e := places) (by omega)
      simp only [hzero, false_and, or_false, h2, iff_true]
      omega

/-- A number is rounded to its fraction digits if it has at most 28 digits with them. -/
theorem exists_quantize (hx : x.Coarse) {places : ℕ} (hp : places ≤ 28)
    (h : x.toRat * 10 ^ places + 1 ≤ 10 ^ 28) : ∃ y, x.quantize places = .ok y := by
  rcases hq : x.quantize places with e | y
  · obtain rfl := quantize_eq_error hq
    rcases (quantize_eq_error_iff hx).1 hq with hlarge | ⟨-, hfar⟩
    · have hround := (abs_le.1 (abs_nearestEven_sub_le (x.toRat * 10 ^ places))).2
      rw [toPlaces_mul_ten_pow] at hlarge
      linarith
    · have : 28 ≤ shiftLimit := by decide
      omega
  · exact ⟨y, rfl⟩

/-- A number of at most 28 digits has a whole quotient. -/
theorem exists_divMod (hn : 0 < n) (h : x.toRat < 10 ^ 28) : ∃ q r, x.divMod n = .ok (q, r) := by
  unfold divMod
  dsimp only
  rw [toRat_eq_div, div_lt_iff₀ (by positivity)] at h
  have hwhole : x.coefficient * 10 ^ x.exponent.toNat < 10 ^ 28 * 10 ^ (-x.exponent).toNat := by
    exact_mod_cast h
  rw [if_pos]
  · exact ⟨_, _, rfl⟩
  · rw [Nat.div_lt_iff_lt_mul (by positivity)]
    refine hwhole.trans_le (Nat.mul_le_mul_left _ ?_)
    exact Nat.le_mul_of_pos_left _ hn

/-- Neither the quotient nor the remainder exceeds the dividend. -/
theorem divMod_le (hn : 0 < n) (h : x.divMod n = .ok (q, r)) : q ≤ x.toRat ∧ r.toRat ≤ x.toRat := by
  obtain ⟨hsum, -⟩ := divMod_spec hn h
  have hn' : (1 : ℚ) ≤ n := by exact_mod_cast hn
  have hq := le_mul_of_one_le_right (Nat.cast_nonneg (α := ℚ) q) hn'
  have hr := r.toRat_nonneg
  have hq0 : (0 : ℚ) ≤ q * n := by positivity
  constructor <;> linarith

end Decimal

/-! ## Angles -/

namespace Angle

variable {m : Magnitude} {unit : MeasureUnit} {places : ℕ} {t : Decimal}
  {refusal : Decimal.Refusal}

theorem total_eq_error (h : total m unit places = .error refusal) : refusal = .precision := by
  cases unit <;> exact Decimal.quantize_eq_error h

theorem split_eq_error (h : split m unit places = .error refusal) : refusal = .precision := by
  unfold split at h
  rcases ht : total m unit places with e | t
  · rw [ht] at h
    cases h
    exact total_eq_error ht
  rw [ht] at h
  cases unit with
  | degree => cases h
  | minute =>
    rcases hd : t.divMod 60 with e | ⟨d, r⟩ <;> simp only [bind, Except.bind, hd] at h <;> cases h
    exact Decimal.divMod_eq_error hd
  | second | meter =>
    rcases hd : t.divMod 3600 with e | ⟨d, r⟩
    · simp only [bind, Except.bind, hd] at h
      cases h
      exact Decimal.divMod_eq_error hd
    rcases hk : r.divMod 60 with e | ⟨k, s⟩ <;> simp only [bind, Except.bind, hd, hk] at h <;>
      cases h
    exact Decimal.divMod_eq_error hk

/-- A total of at most 28 digits is split. -/
theorem exists_split (ht : total m unit places = .ok t) : ∃ p, split m unit places = .ok p := by
  have hlt := toRat_total_lt ht
  unfold split
  rw [ht]
  cases unit with
  | degree => exact ⟨_, rfl⟩
  | minute =>
    obtain ⟨d, r, hd⟩ := Decimal.exists_divMod (n := 60) (by norm_num) hlt
    simp only [bind, Except.bind, hd]
    exact ⟨_, rfl⟩
  | second | meter =>
    obtain ⟨d, r, hd⟩ := Decimal.exists_divMod (n := 3600) (by norm_num) hlt
    have hr := (Decimal.divMod_le (by norm_num) hd).2.trans_lt hlt
    obtain ⟨k, s, hk⟩ := Decimal.exists_divMod (n := 60) (by norm_num) hr
    simp only [bind, Except.bind, hd, hk]
    exact ⟨_, rfl⟩

end Angle

end GeoPattern
