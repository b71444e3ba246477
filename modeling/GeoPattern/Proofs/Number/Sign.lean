/-
Signs of doubles. A product with one or minus one is exact: it has the other factor's size, and the
sign that was asked for. A number that is read without a minus sign has none, nor have its parts.
Main statement: `ofInt_mul`.
-/
import GeoPattern.Proofs.Number.Double
import GeoPattern.Specifier.Scan

namespace GeoPattern

/-! ## Exact quotients -/

theorem roundHalfEven_mul (n : ℕ) {den : ℕ} (hd : 0 < den) : roundHalfEven (n * den) den = n := by
  unfold roundHalfEven
  dsimp only
  rw [Nat.mul_mod_left, Nat.mul_div_cancel _ hd, if_pos (by omega)]

theorem roundUnits_mul {units k : ℕ} (h : spacing units ∣ units) (hk : 0 < k) :
    roundUnits (units * k) k = units := by
  obtain ⟨c, hc⟩ := h
  unfold roundUnits
  rw [Nat.mul_div_cancel _ hk]
  have hnum : units * k = c * (k * spacing units) := by
    conv_lhs => rw [hc]
    ring
  rw [hnum, roundHalfEven_mul _ (Nat.mul_pos hk (spacing_pos _)), mul_comm, ← hc]

namespace Double

theorem nearest?_mul (m : Magnitude) {k : ℕ} (hk : 0 < k) :
    Magnitude.nearest? (m.units * k) k = some m := by
  obtain ⟨units, hlog, hdvd⟩ := m
  have hr := roundUnits_mul hdvd hk
  unfold Magnitude.nearest?
  simp only [hr, hlog, dite_true]

/-- An exact quotient is its own nearest double. -/
theorem ofUnits_mul (negative : Bool) (m : Magnitude) {k : ℕ} (hk : 0 < k) :
    ofUnits negative (m.units * k) k = .finite negative m := by
  unfold ofUnits
  rw [nearest?_mul m hk]

/-! ## One with a sign -/

/-- One is a double. Its units are kept out of sight, so that nothing tries to write them out. -/
theorem exists_one : ∃ one : Magnitude, one.units = unitsPerOne := by
  have hlog : unitsPerOne.log2 < exponentLimit := by
    unfold unitsPerOne
    generalize he : 1074 = e
    rw [Nat.log2_two_pow, ← he]
    decide
  have hdvd : spacing unitsPerOne ∣ unitsPerOne := by
    obtain ⟨e, -, he⟩ := exists_unitsPerOne_eq
    have := spacing_dvd_mul 1 e (by norm_num)
    rwa [one_mul, ← he] at this
  generalize unitsPerOne = units at hlog hdvd
  exact ⟨⟨units, hlog, hdvd⟩, rfl⟩

theorem ofInt_sign (negative : Bool) : ∃ one : Magnitude, one.units = unitsPerOne ∧
    ofInt (if negative then -1 else 1) = .finite negative one := by
  obtain ⟨one, hone⟩ := exists_one
  have h (b : Bool) : ofRatio b 1 1 = .finite b one := by
    unfold ofRatio
    rw [mul_comm, ← hone]
    exact ofUnits_mul b one one_pos
  refine ⟨one, hone, ?_⟩
  cases negative
  · exact h false
  · exact h true

/-- A product with one or minus one is exact. -/
theorem ofInt_mul (negative : Bool) (x : Double) :
    (ofInt (if negative then -1 else 1)).mul x = if negative then x.neg else x := by
  obtain ⟨one, hone, hsign⟩ := ofInt_sign negative
  have hpos : 0 < unitsPerOne := by exact_mod_cast unitsPerOne_pos
  rw [hsign]
  cases x with
  | nan => cases negative <;> rfl
  | infinite b => cases negative <;> cases b <;> simp [mul, hone, hpos.ne', neg]
  | finite b m =>
    unfold mul
    dsimp only
    rw [hone, mul_comm, ofUnits_mul _ m hpos]
    cases negative <;> cases b <;> rfl

/-! ## Numbers without a minus sign -/

theorem abs_ofUnits (num den : ℕ) : (ofUnits false num den).abs = ofUnits false num den := by
  unfold ofUnits
  split <;> rfl

/-- A part of a number that has no minus sign has none. -/
theorem abs_divNat {x : Double} (h : x.abs = x) (n : ℕ) : (x.divNat n).abs = x.divNat n := by
  cases x with
  | nan => rfl
  | infinite b => exact h
  | finite b m =>
    obtain rfl : b = false := by
      cases b
      · rfl
      · cases h
    exact abs_ofUnits _ _

theorem isBelowZero_of_abs {x : Double} (h : x.abs = x) : x.isBelowZero = false := by
  rw [← h]
  cases x <;> rfl

end Double

/-- A numeral without a sign is no number below zero. -/
theorem Numeral.abs_value {n : Numeral} (h : n.sign = none) : n.value.abs = n.value := by
  have hn : n.isNegative = false := by rw [isNegative, h]; rfl
  rw [value, hn]
  exact Double.abs_ofUnits _ _

end GeoPattern
