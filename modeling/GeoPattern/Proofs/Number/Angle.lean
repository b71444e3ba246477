/-
The split of an angle, in exact numbers: the total is the size of the angle in its finest unit,
rounded once, and the parts add up to the total with minutes and seconds below sixty. Whole parts
are doubles, so that only the finest part may change on its way through a double.
Main statements: `split_spec`, `nearestDouble_degrees`.
-/
import GeoPattern.Angle
import GeoPattern.Proofs.Number.Double

namespace GeoPattern

namespace Angle

variable {m : Magnitude} {unit : MeasureUnit} {places : ℕ} {t : Decimal}

/-- The size of a component in a unit, as far as it is computed: degrees and meters are exact,
minutes and seconds are products of 28 significant digits. -/
def measure (m : Magnitude) (unit : MeasureUnit) : ℚ :=
  match unit with
  | .degree | .meter => m.toRat
  | .minute | .second => toSignificant Decimal.precision (m.toRat * unit.perDegree)

theorem measure_eq (m : Magnitude) (hu : unit = .minute ∨ unit = .second) :
    measure m unit = toSignificant Decimal.precision (m.toRat * unit.perDegree) := by
  rcases hu with rfl | rfl <;> rfl

theorem measure_eq_zero_iff (m : Magnitude) (unit : MeasureUnit) :
    measure m unit = 0 ↔ m.toRat = 0 := by
  have hproduct (hu : 0 < unit.perDegree) :
      toSignificant Decimal.precision (m.toRat * unit.perDegree) = 0 ↔ m.toRat = 0 := by
    rw [toSignificant_eq_zero_iff (by decide) (mul_nonneg m.toRat_nonneg (Nat.cast_nonneg _)),
      mul_eq_zero, or_iff_left (by exact_mod_cast hu.ne')]
  cases unit with
  | degree | meter => exact Iff.rfl
  | minute | second => exact hproduct (by decide)

/-! ## The total -/

theorem ne_meter_of_finer (hu : unit = .minute ∨ unit = .second) : unit ≠ .meter := by
  rcases hu with rfl | rfl <;> exact MeasureUnit.noConfusion

/-- The total is the size of the angle, as it is computed, when it is rounded. -/
theorem exists_total_eq_quantize (hu : unit ≠ .meter) (m : Magnitude) (places : ℤ) :
    ∃ x : Decimal, x.Coarse ∧ x.toRat = measure m unit ∧
      total m unit places = x.quantize places := by
  have hm := Decimal.coarse_ofMagnitude m
  cases unit with
  | degree => exact ⟨_, hm, Decimal.toRat_ofMagnitude m, rfl⟩
  | meter => exact absurd rfl hu
  | minute | second =>
    exact ⟨_, hm.times _, by rw [Decimal.toRat_times, Decimal.toRat_ofMagnitude]; rfl, rfl⟩

/-- The total is the size of the angle, rounded to the fraction digits. -/
theorem toRat_total (hu : unit ≠ .meter) (h : total m unit places = .ok t) :
    t.toRat = toPlaces places (measure m unit) := by
  obtain ⟨x, hx, hm, ht⟩ := exists_total_eq_quantize hu m places
  rw [← hm, Decimal.toRat_of_quantize hx (ht ▸ h)]

theorem quantize_of_total (h : total m unit places = .ok t) :
    ∃ x : Decimal, x.quantize places = .ok t := by
  cases unit <;> exact ⟨_, h⟩

/-- The total has 28 digits at most. -/
theorem toRat_total_lt (h : total m unit places = .ok t) : t.toRat < 10 ^ 28 := by
  obtain ⟨x, hx⟩ := quantize_of_total h
  have hlt := Decimal.coefficient_lt_of_quantize hx
  have hexp := Decimal.exponent_of_quantize hx
  have hone : (10 : ℚ) ^ t.exponent ≤ 1 := zpow_le_one_of_nonpos₀ (by norm_num) (by omega)
  calc t.toRat ≤ t.coefficient * 1 := by
        rw [Decimal.toRat]
        gcongr
    _ < 10 ^ 28 := by
        rw [mul_one]
        exact_mod_cast hlt

/-! ## The parts -/

theorem parts_eq_ok_iff {places : ℤ} {negative : Bool} {parts : Double × Double × Double} :
    Angle.parts (.finite negative m) unit places = .ok parts ↔
      ∃ p, split m unit places = .ok p ∧
        parts = (p.degrees.toDouble false, p.minutes.toDouble false, p.seconds.toDouble false) := by
  unfold Angle.parts
  dsimp only
  rcases split m unit places with e | p
  · exact ⟨nofun, nofun⟩
  · constructor
    · intro h
      cases h
      exact ⟨p, rfl, rfl⟩
    · rintro ⟨_, ⟨⟩, rfl⟩
      rfl

/-- An angle in minutes or seconds splits into whole degrees, in seconds also into whole minutes,
and a rest below sixty in the finest unit. -/
theorem split_spec {p : Parts} (hu : unit = .minute ∨ unit = .second)
    (h : split m unit places = .ok p) :
    ∃ t d, total m unit places = .ok t ∧ p.degrees = ⟨d, 0⟩ ∧
      (unit = .minute ∧ t.toRat = d * 60 + p.minutes.toRat ∧ p.minutes.toRat < 60 ∧
          p.seconds = .zero ∨
        unit = .second ∧ ∃ k : ℕ, p.minutes = ⟨k, 0⟩ ∧ k < 60 ∧
          t.toRat = d * 3600 + k * 60 + p.seconds.toRat ∧ p.seconds.toRat < 60) := by
  unfold split at h
  rcases ht : total m unit places with e | t
  · rw [ht] at h; cases h
  rw [ht] at h
  refine ⟨t, ?_⟩
  rcases hu with rfl | rfl
  · rcases hd : t.divMod 60 with e | ⟨d, r⟩
    · simp only [bind, Except.bind, hd] at h; cases h
    simp only [bind, Except.bind, hd] at h
    cases h
    obtain ⟨hsum, hlt⟩ := Decimal.divMod_spec (by norm_num) hd
    exact ⟨d, rfl, rfl, .inl ⟨rfl, by exact_mod_cast hsum, by exact_mod_cast hlt, rfl⟩⟩
  · rcases hd : t.divMod 3600 with e | ⟨d, r⟩
    · simp only [bind, Except.bind, hd] at h; cases h
    rcases hk : r.divMod 60 with e | ⟨k, s⟩
    · simp only [bind, Except.bind, hd, hk] at h; cases h
    simp only [bind, Except.bind, hd, hk] at h
    cases h
    obtain ⟨hsum, hlt⟩ := Decimal.divMod_spec (by norm_num) hd
    obtain ⟨hsum', hlt'⟩ := Decimal.divMod_spec (by norm_num) hk
    push_cast at hsum hlt hsum' hlt'
    have hk60 : (k : ℚ) < 60 := by
      have := s.toRat_nonneg
      linarith
    exact ⟨d, rfl, rfl, .inr ⟨rfl, k, rfl, by exact_mod_cast hk60, by linarith, hlt'⟩⟩

/-! ## Whole parts are doubles -/

/-- The last of 28 digits of a number below a power of ten. -/
theorem lastDigit_le {y : ℚ} {k : ℕ} (hk : 0 < k) (h : y < 10 ^ k) :
    lastDigit Decimal.precision y ≤ k - 28 := by
  unfold lastDigit Decimal.precision
  by_cases hy : 0 < y
  · have := (Int.lt_zpow_iff_log_lt (b := 10) (x := k) (by norm_num) hy).1 (by exact_mod_cast h)
    push_cast
    omega
  · rw [Int.log_of_right_le_zero _ (not_lt.1 hy)]
    push_cast
    omega

theorem lastDigit_nonpos {y : ℚ} (h : y < 10 ^ 28) : lastDigit Decimal.precision y ≤ 0 :=
  lastDigit_le (by norm_num) h

/-- A number that is not below a power of ten stays so when it is rounded. -/
theorem le_toSignificant {y : ℚ} (h : 10 ^ 28 ≤ y) : 10 ^ 28 ≤ toSignificant Decimal.precision y := by
  have hy : 0 < y := lt_of_lt_of_le (by positivity) h
  have hlog : 28 ≤ Int.log 10 y :=
    (Int.zpow_le_iff_le_log (b := 10) (by norm_num) hy).1 (by exact_mod_cast h)
  calc (10 : ℚ) ^ 28 = 10 ^ (28 : ℤ) := by norm_num
    _ ≤ 10 ^ Int.log 10 y := zpow_le_zpow_right₀ (by norm_num) hlog
    _ ≤ toSignificant Decimal.precision y := zpow_log_le_toSignificant (by decide) hy

/-- The two roundings of a total add one at most. -/
theorem toPlaces_measure_le (hu : unit = .minute ∨ unit = .second)
    (hy : m.toRat * unit.perDegree < 10 ^ 28) (places : ℕ) :
    toPlaces places (measure m unit) ≤ m.toRat * unit.perDegree + 1 := by
  rw [measure_eq m hu]
  have hten : (10 : ℚ) ^ lastDigit Decimal.precision (m.toRat * unit.perDegree) ≤ 1 :=
    zpow_le_one_of_nonpos₀ (by norm_num) (lastDigit_nonpos hy)
  have hplaces : 1 / 2 / (10 : ℚ) ^ places ≤ 1 / 2 :=
    div_le_self (by norm_num) (one_le_pow₀ (by norm_num))
  have h1 := (abs_le.1 (abs_toSignificant_sub_le Decimal.precision (m.toRat * unit.perDegree))).2
  have h2 := (abs_le.1 (abs_toPlaces_sub_le places
    (toSignificant Decimal.precision (m.toRat * unit.perDegree)))).2
  linarith

/-- The whole degrees of an angle are a double: either they are few, or the angle is a whole number
itself and is found again. -/
theorem nearestDouble_degrees (hu : unit = .minute ∨ unit = .second)
    (ht : total m unit places = .ok t) {d : ℕ} (hle : d * (unit.perDegree : ℚ) ≤ t.toRat)
    (hlt : t.toRat < (d + 1) * unit.perDegree) : nearestDouble d = d := by
  have hk : (60 : ℚ) ≤ unit.perDegree ∧ (unit.perDegree : ℚ) ≤ 3600 := by
    rcases hu with rfl | rfl <;> norm_num [MeasureUnit.perDegree]
  have hkpos : (0 : ℚ) < unit.perDegree := by linarith [hk.1]
  have htotal := toRat_total (ne_meter_of_finer hu) ht
  have hsmall := toRat_total_lt ht
  rw [htotal] at hle hlt hsmall
  -- a total of more than 28 digits would have been refused
  have hy : m.toRat * unit.perDegree < 10 ^ 28 := by
    by_contra h
    have h28 : (((10 ^ 28 : ℕ)) : ℚ) ≤ toSignificant Decimal.precision (m.toRat * unit.perDegree) := by
      exact_mod_cast le_toSignificant (not_lt.1 h)
    have := toPlaces_mono places h28
    rw [toPlaces_natCast, ← measure_eq m hu] at this
    push_cast at this
    exact absurd hsmall (not_lt.2 this)
  -- below 2 ^ 53 every whole number is a double; from there on the angle is whole itself, and
  -- the total is exactly its multiple
  rcases lt_or_ge m.toRat (2 ^ 53) with hm | hm
  · have hd : (d : ℚ) * unit.perDegree < (2 ^ 53 + 1) * unit.perDegree := by
      have := mul_lt_mul_of_pos_right hm hkpos
      have := toPlaces_measure_le hu hy places
      linarith [hk.1]
    have hd' : d < 2 ^ 53 + 1 := by exact_mod_cast lt_of_mul_lt_mul_right hd hkpos.le
    exact nearestDouble_natCast (by omega)
  · obtain ⟨n, hn⟩ := Magnitude.exists_natCast_of_le hm
    have hexact : toSignificant Decimal.precision (m.toRat * unit.perDegree)
        = ((n * unit.perDegree : ℕ) : ℚ) := by
      rw [toSignificant_of_eq (n := n * unit.perDegree) (e := 0) (by rw [hn]; push_cast; ring)
        (lastDigit_nonpos hy), hn]
      push_cast
      rfl
    rw [measure_eq m hu, hexact, toPlaces_natCast] at hle hlt
    push_cast at hle hlt
    have h1 : d ≤ n := by exact_mod_cast le_of_mul_le_mul_right hle hkpos
    have h2 : n < d + 1 := by exact_mod_cast lt_of_mul_lt_mul_right hlt hkpos.le
    obtain rfl : d = n := by omega
    rw [← hn, nearestDouble_toRat]

end Angle

end GeoPattern
