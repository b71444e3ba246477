/-
The nearest double is the nearest one: no other double lies closer to a number. So a rounding does
not pass a double, a number that does not exceed some double is rounded to a finite one, and the
fraction digits of a double are found again after they went through a double themselves.
Main statements: `abs_nearestDouble_sub_le_abs`, `toPlaces_nearestDouble_toPlaces`.
-/
import GeoPattern.Proofs.Number.Double

namespace GeoPattern

/-! ## Whole numbers -/

/-- No whole number is closer. -/
theorem abs_nearestEven_sub_le_abs (x : ℚ) (n : ℤ) : |(nearestEven x : ℚ) - x| ≤ |n - x| := by
  by_cases h : |x - n| < 1 / 2
  · rw [nearestEven_eq_of_abs_sub_lt h]
  · rw [abs_sub_comm (n : ℚ)]
    exact (abs_nearestEven_sub_le x).trans (not_lt.1 h)

/-- Of two equally near whole numbers the even one is taken. -/
theorem nearestEven_emod_two_of_tie {x : ℚ} (h : |(nearestEven x : ℚ) - x| = 1 / 2) :
    nearestEven x % 2 = 0 := by
  have h0 := Int.floor_le x
  have h1 := Int.lt_floor_add_one x
  unfold nearestEven at h ⊢
  split_ifs at h ⊢ with hlt hgt
  · rw [abs_sub_comm, abs_of_nonneg (by linarith)] at h
    exact absurd h hlt.ne
  · push_cast at h
    rw [abs_of_nonneg (by linarith)] at h
    exact absurd h (by linarith)
  · omega

theorem nearestEven_eq_of_even {x : ℚ} {n : ℤ} (hn : n % 2 = 0) (h : |x - n| ≤ 1 / 2) :
    nearestEven x = n := by
  rcases h.lt_or_eq with h | h
  · exact nearestEven_eq_of_abs_sub_lt h
  -- from either side of an even number a tie goes to it
  rcases eq_or_eq_neg_of_abs_eq h with h | h
  · have hfloor : ⌊x⌋ = n := by
      rw [Int.floor_eq_iff]
      constructor <;> linarith
    unfold nearestEven
    rw [hfloor, h, if_neg (lt_irrefl _), if_neg (lt_irrefl _)]
    omega
  · have hfloor : ⌊x⌋ = n - 1 := by
      rw [Int.floor_eq_iff]
      push_cast
      constructor <;> linarith
    have hfrac : x - ((n - 1 : ℤ) : ℚ) = 1 / 2 := by
      push_cast
      linarith
    unfold nearestEven
    rw [hfloor, hfrac, if_neg (lt_irrefl _), if_neg (lt_irrefl _)]
    omega

/-- What is no farther from the rounded number is rounded to the same. -/
theorem nearestEven_eq_of_abs_sub_le {x y : ℚ}
    (h : |y - nearestEven x| ≤ |x - nearestEven x|) : nearestEven y = nearestEven x := by
  rcases (abs_nearestEven_sub_le x).lt_or_eq with hx | hx
  · rw [abs_sub_comm] at hx
    exact nearestEven_eq_of_abs_sub_lt (h.trans_lt hx)
  · have heven := nearestEven_emod_two_of_tie hx
    rw [abs_sub_comm] at hx
    exact nearestEven_eq_of_even heven (h.trans hx.le)

/-- Numbers are rounded by their size: a tie goes to the even neighbour on either side of zero. -/
theorem nearestEven_neg (x : ℚ) : nearestEven (-x) = -nearestEven x := by
  have hdist : |(-x) - ((-nearestEven x : ℤ) : ℚ)| = |(nearestEven x : ℚ) - x| := by
    push_cast
    congr 1
    ring
  rcases (abs_nearestEven_sub_le x).lt_or_eq with h | h
  · exact nearestEven_eq_of_abs_sub_lt (hdist ▸ h)
  · have heven := nearestEven_emod_two_of_tie h
    exact nearestEven_eq_of_even (by omega) (hdist ▸ h.le)

theorem toPlaces_neg (places : ℕ) (x : ℚ) : toPlaces places (-x) = -toPlaces places x := by
  rw [toPlaces, neg_mul, nearestEven_neg]
  push_cast
  rw [neg_div]
  rfl

theorem toPlaces_signed (places : ℕ) (negative : Bool) (x : ℚ) :
    toPlaces places (signed negative x) = signed negative (toPlaces places x) := by
  unfold signed
  split
  · exact toPlaces_neg places x
  · rfl

/-! ## Doubles -/

/-- Among the multiples of the spacing at a number the nearest one is taken. -/
theorem abs_nearestDouble_sub_le_of_dvd {x : ℚ} {units : ℕ}
    (h : spacing ⌊x * unitsPerOne⌋.toNat ∣ units) :
    |nearestDouble x - x| ≤ |units / unitsPerOne - x| := by
  obtain ⟨k, rfl⟩ := h
  have hs := doubleSpacing_pos x
  have hunits : ((spacing ⌊x * unitsPerOne⌋.toNat * k : ℕ) : ℚ) / unitsPerOne
      = k * doubleSpacing x := by
    rw [doubleSpacing]
    push_cast
    ring
  have hscale (y : ℚ) : |y * doubleSpacing x - x| = |y - x / doubleSpacing x| * doubleSpacing x := by
    rw [← abs_of_pos hs, ← abs_mul, abs_of_pos hs, sub_mul, div_mul_cancel₀ _ hs.ne']
  rw [hunits, nearestDouble, hscale, hscale]
  have := abs_nearestEven_sub_le_abs (x / doubleSpacing x) k
  push_cast at this
  gcongr

/-- A double between whose neighbours the distance is smaller lies below the power of two at which
the distance begins. -/
theorem exists_between_of_not_dvd {units q : ℕ} (hs : spacing units ∣ units)
    (h : ¬ spacing q ∣ units) : ∃ b, spacing q ∣ b ∧ units ≤ b ∧ b ≤ q := by
  have hlog : units.log2 < q.log2 := by
    by_contra hle
    exact h ((Nat.pow_dvd_pow 2 (by omega)).trans hs)
  have hq : q ≠ 0 := by
    rintro rfl
    rw [Nat.log2_zero] at hlog
    omega
  refine ⟨2 ^ q.log2, Nat.pow_dvd_pow 2 (Nat.sub_le _ _), ?_, Nat.log2_self_le hq⟩
  rcases Nat.eq_zero_or_pos units with h0 | h0
  · rw [h0]
    exact Nat.zero_le _
  · exact ((Nat.log2_lt h0.ne').1 hlog).le

theorem abs_sub_le_of_between {x y z : ℚ} (hz : z ≤ y) (hy : y ≤ x) : |y - x| ≤ |z - x| := by
  rw [abs_of_nonpos (by linarith), abs_of_nonpos (by linarith)]
  linarith

/-- No double is closer than the nearest one. -/
theorem abs_nearestDouble_sub_le_abs {x : ℚ} (hx : 0 ≤ x) {units : ℕ} (h : spacing units ∣ units) :
    |nearestDouble x - x| ≤ |units / unitsPerOne - x| := by
  have hu := unitsPerOne_pos
  by_cases hdvd : spacing ⌊x * unitsPerOne⌋.toNat ∣ units
  · exact abs_nearestDouble_sub_le_of_dvd hdvd
  · obtain ⟨b, hb, hle, hbq⟩ := exists_between_of_not_dvd h hdvd
    have hbx : (b : ℚ) / unitsPerOne ≤ x := by
      rw [div_le_iff₀ hu]
      have hfloor : ((⌊x * unitsPerOne⌋.toNat : ℤ) : ℚ) ≤ x * unitsPerOne := by
        rw [Int.toNat_of_nonneg (Int.floor_nonneg.2 (mul_nonneg hx hu.le))]
        exact Int.floor_le _
      have hbq' : (b : ℚ) ≤ ⌊x * unitsPerOne⌋.toNat := by exact_mod_cast hbq
      exact hbq'.trans (by exact_mod_cast hfloor)
    have hle' : (units : ℚ) / unitsPerOne ≤ b / unitsPerOne :=
      div_le_div_of_nonneg_right (by exact_mod_cast hle) hu.le
    exact (abs_nearestDouble_sub_le_of_dvd hb).trans (abs_sub_le_of_between hle' hbx)

/-! ## Order -/

section Order

variable {x : ℚ} {m : Magnitude}

theorem nearestDouble_le (hx : 0 ≤ x) (h : x ≤ m.toRat) : nearestDouble x ≤ m.toRat := by
  have hnear : |nearestDouble x - x| ≤ |m.toRat - x| := abs_nearestDouble_sub_le_abs hx m.spacing_dvd
  rw [abs_of_nonneg (by linarith : 0 ≤ m.toRat - x)] at hnear
  linarith [le_abs_self (nearestDouble x - x)]

theorem nearestDouble_zero : nearestDouble 0 = 0 := by
  simpa using nearestDouble_toRat .zero

/-- Powers of two below the range are doubles. -/
theorem Magnitude.exists_two_pow {k : ℕ} (hk : k < 1024) : ∃ m : Magnitude, m.toRat = 2 ^ k := by
  have hu := unitsPerOne_pos
  have hlog : (2 ^ k * unitsPerOne).log2 < exponentLimit := by
    unfold unitsPerOne exponentLimit
    generalize he : 1074 = e
    rw [← Nat.pow_add, Nat.log2_two_pow]
    omega
  have hdvd : spacing (2 ^ k * unitsPerOne) ∣ 2 ^ k * unitsPerOne := by
    obtain ⟨e, -, he⟩ := exists_unitsPerOne_eq
    have := spacing_dvd_mul 1 (k + e) (by norm_num)
    rwa [one_mul, Nat.pow_add, ← he] at this
  refine ⟨⟨_, hlog, hdvd⟩, ?_⟩
  rw [toRat]
  push_cast
  rw [mul_div_cancel_right₀ _ hu.ne']

end Order

/-! ## Finite results -/

namespace Double

variable {m n bound : Magnitude}

/-- What does not exceed a finite double is rounded to a finite one. -/
theorem exists_ofUnits (negative : Bool) {units den : ℕ} (hd : 0 < den)
    (h : (units : ℚ) / den / unitsPerOne ≤ bound.toRat) :
    ∃ m, ofUnits negative units den = .finite negative m ∧
      m.toRat = nearestDouble ((units : ℚ) / den / unitsPerOne) := by
  have hu := unitsPerOne_pos
  have hle : (roundUnits units den : ℚ) / unitsPerOne ≤ bound.units / unitsPerOne := by
    rw [roundUnits_div _ _ hd]
    exact nearestDouble_le (div_nonneg (div_nonneg (Nat.cast_nonneg _) (Nat.cast_nonneg _)) hu.le) h
  have hle' : roundUnits units den ≤ bound.units := by
    exact_mod_cast (div_le_div_iff_of_pos_right hu).1 hle
  have hlog : (roundUnits units den).log2 < exponentLimit := by
    rcases Nat.eq_zero_or_pos (roundUnits units den) with h0 | h0
    · rw [h0, Nat.log2_zero]
      decide
    · rw [Nat.log2_lt h0.ne']
      exact hle'.trans_lt ((Nat.log2_lt (by omega)).1 bound.log2_units_lt)
  refine ⟨⟨_, hlog, spacing_dvd_roundUnits _ _⟩, ?_, roundUnits_div _ _ hd⟩
  unfold ofUnits Magnitude.nearest?
  rw [dif_pos hlog]

theorem exists_ofRatio (negative : Bool) {num den : ℕ} (hd : 0 < den)
    (h : (num : ℚ) / den ≤ bound.toRat) :
    ∃ m, ofRatio negative num den = .finite negative m ∧
      m.toRat = nearestDouble ((num : ℚ) / den) := by
  have hu := unitsPerOne_pos
  have hunits : ((num * unitsPerOne : ℕ) : ℚ) / den / unitsPerOne = (num : ℚ) / den := by
    rw [Nat.cast_mul, div_right_comm, mul_div_cancel_right₀ _ hu.ne']
  rw [← hunits] at h ⊢
  exact exists_ofUnits negative hd h

theorem exists_truncate (negative : Bool) (m : Magnitude) :
    ∃ n : Magnitude, (finite negative m).truncate = .finite negative n ∧ n.toRat ≤ m.toRat := by
  have hu := unitsPerOne_pos
  have hle : ((m.units / unitsPerOne : ℕ) : ℚ) / (1 : ℕ) ≤ m.toRat := by
    rw [Nat.cast_one, div_one]
    exact Nat.cast_div_le
  obtain ⟨n, hn, hnr⟩ := exists_ofRatio negative one_pos hle
  exact ⟨n, hn, hnr ▸ nearestDouble_le (div_nonneg (Nat.cast_nonneg _) (Nat.cast_nonneg _)) hle⟩

theorem exists_divNat (negative : Bool) (m : Magnitude) {k : ℕ} (hk : 0 < k) :
    ∃ n, (finite negative m).divNat k = .finite negative n ∧
      n.toRat = nearestDouble (m.toRat / k) := by
  have hk' : (1 : ℚ) ≤ k := by exact_mod_cast hk
  have hdiv : (m.units : ℚ) / k / unitsPerOne = m.toRat / k := div_right_comm _ _ _
  have hle : (m.units : ℚ) / k / unitsPerOne ≤ m.toRat := by
    rw [hdiv]
    exact div_le_self m.toRat_nonneg hk'
  rw [← hdiv]
  exact exists_ofUnits negative hk hle

/-- The sum of two numbers that are not negative is the rounded one. -/
theorem exists_add (h : m.toRat + n.toRat ≤ bound.toRat) :
    ∃ k, (finite false m).add (.finite false n) = .finite false k ∧
      k.toRat = nearestDouble (m.toRat + n.toRat) := by
  have hsum : ((m.units + n.units : ℕ) : ℚ) / (1 : ℕ) / unitsPerOne = m.toRat + n.toRat := by
    rw [Nat.cast_one, div_one, Nat.cast_add, add_div]
    rfl
  have htotal : signedUnits false m + signedUnits false n = ((m.units + n.units : ℕ) : ℤ) := by
    simp [signedUnits]
  unfold add
  dsimp only
  rw [htotal]
  split
  · rename_i hzero
    have h0 : m.toRat + n.toRat = 0 := by
      rw [← hsum, show m.units + n.units = 0 by exact_mod_cast hzero, Nat.cast_zero, zero_div,
        zero_div]
    exact ⟨.zero, rfl, by rw [h0, nearestDouble_zero, Magnitude.toRat_zero]⟩
  · rw [Int.natAbs_natCast, show decide (((m.units + n.units : ℕ) : ℤ) < 0) = false by
      rw [decide_eq_false_iff_not]; omega, ← hsum]
    exact exists_ofUnits false one_pos (hsum ▸ h)

end Double

/-- A decimal that does not exceed a finite double is read as a finite one. -/
theorem Decimal.exists_toDouble (negative : Bool) {d : Decimal} {bound : Magnitude}
    (h : d.toRat ≤ bound.toRat) :
    ∃ m, d.toDouble negative = .finite negative m ∧ m.toRat = nearestDouble d.toRat := by
  rw [d.toRat_eq_div] at h ⊢
  exact Double.exists_ofRatio negative (by positivity) h

/-! ## Fraction digits that are kept -/

/-- A double that is rounded to fraction digits does not leave the range of doubles. -/
theorem Magnitude.exists_toPlaces_le (places : ℕ) (m : Magnitude) :
    ∃ bound : Magnitude, toPlaces places m.toRat ≤ bound.toRat := by
  rcases lt_or_ge m.toRat (2 ^ 53) with hm | hm
  · obtain ⟨bound, hbound⟩ := Magnitude.exists_two_pow (k := 54) (by norm_num)
    refine ⟨bound, ?_⟩
    have hround := (abs_le.1 (abs_toPlaces_sub_le places m.toRat)).2
    have hhalf : 1 / 2 / (10 : ℚ) ^ places ≤ 1 / 2 :=
      div_le_self (by norm_num) (one_le_pow₀ (by norm_num))
    rw [hbound]
    linarith
  · -- from there on a double is a whole number
    obtain ⟨n, hn⟩ := Magnitude.exists_natCast_of_le hm
    refine ⟨m, ?_⟩
    rw [hn, toPlaces_natCast]

/-- The fraction digits of a double are found again after a detour through a double: that is no
farther from them than the double that they were taken of. -/
theorem toPlaces_nearestDouble_toPlaces (places : ℕ) (m : Magnitude) :
    toPlaces places (nearestDouble (toPlaces places m.toRat)) = toPlaces places m.toRat := by
  have hp := ten_pow_pos places
  generalize hn : nearestEven (m.toRat * 10 ^ places) = n
  have hy : toPlaces places m.toRat = n / 10 ^ places := by rw [toPlaces, hn]
  have hy0 : 0 ≤ toPlaces places m.toRat := by
    have := toPlaces_mono places m.toRat_nonneg
    rwa [toPlaces_zero] at this
  have hnear : |nearestDouble (toPlaces places m.toRat) - toPlaces places m.toRat|
      ≤ |m.toRat - toPlaces places m.toRat| := abs_nearestDouble_sub_le_abs hy0 m.spacing_dvd
  have hscale (z : ℚ) : |z * 10 ^ places - n| = |z - toPlaces places m.toRat| * 10 ^ places := by
    rw [hy, ← abs_of_pos hp, ← abs_mul, abs_of_pos hp, sub_mul, div_mul_cancel₀ _ hp.ne']
  rw [toPlaces_eq_iff, hy, div_mul_cancel₀ _ hp.ne', ← hy, ← hn]
  congr 1
  apply nearestEven_eq_of_abs_sub_le
  rw [hn, hscale, hscale]
  gcongr

end GeoPattern
