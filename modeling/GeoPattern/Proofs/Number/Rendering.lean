/-
The text of a double. The number is rounded once, a tie to the even neighbour, and the text spells
the rounded number exactly: a minus sign if that is below zero, the whole part padded with zeros,
the separator and the fraction digits. There is no text if the rounded number has more than 28
digits, and no more fraction digits than numbers have, of which only zero is written.
Main statements: `render_eq_error_iff`, `render_exact`.
-/
import GeoPattern.Proofs.Number.Nearest
import GeoPattern.Proofs.Number.Numeral
import GeoPattern.Proofs.Number.Precision

namespace GeoPattern

namespace Specifier

variable {s : Specifier} {negative : Bool} {m : Magnitude} {w integer fraction : Text}

/-! ## Refusal -/

theorem render_finite_eq_error {e : FormatError} (h : s.render (.finite negative m) = .error e) :
    e = .arithmetic .precision := by
  unfold render at h
  dsimp only at h
  rcases hq : (Decimal.ofMagnitude m).quantize s.fractionDigits with refusal | y <;>
    rw [hq] at h <;> cases h
  rw [Decimal.quantize_eq_error hq]

/-- A double is not written exactly if its digits have no room, or there are too many for zero. -/
theorem render_eq_error_iff :
    s.render (.finite negative m) = .error (.arithmetic .precision) ↔
      10 ^ 28 ≤ toPlaces s.fractionDigits m.toRat * 10 ^ s.fractionDigits ∨
        m.toRat = 0 ∧ Decimal.shiftLimit < s.fractionDigits := by
  rw [← Decimal.toRat_ofMagnitude,
    ← Decimal.quantize_eq_error_iff (Decimal.coarse_ofMagnitude m)]
  unfold render
  dsimp only
  rcases (Decimal.ofMagnitude m).quantize s.fractionDigits with e | y
  · constructor <;> rintro ⟨⟩ <;> rfl
  · exact iff_of_false nofun nofun

/-- A double is written if it has at most 28 digits. -/
theorem exists_render (hp : s.fractionDigits ≤ 28)
    (h : m.toRat * 10 ^ s.fractionDigits + 1 ≤ 10 ^ 28) (negative : Bool) :
    ∃ w, s.render (.finite negative m) = .ok w := by
  rw [← Decimal.toRat_ofMagnitude] at h
  obtain ⟨y, hy⟩ := Decimal.exists_quantize (Decimal.coarse_ofMagnitude m) hp h
  exact ⟨_, render_eq_ok_iff.2 ⟨negative, m, y, rfl, hy, rfl⟩⟩

/-- Only zero is written with more fraction digits than numbers have. -/
theorem toRat_eq_zero_of_render (h : s.render (.finite negative m) = .ok w)
    (hf : Decimal.finestPlaces < s.fractionDigits) : m.toRat = 0 := by
  obtain ⟨_, _, y, hd, hy, -⟩ := render_eq_ok_iff.1 h
  cases hd
  rw [← Decimal.toRat_ofMagnitude]
  exact Decimal.toRat_eq_zero_of_quantize (Decimal.coarse_ofMagnitude m) hf hy

/-! ## Numbers that are written alike -/

/-- Doubles that agree in the fraction digits of a specifier are written alike, if they have the
same sign or are written as zero. -/
theorem render_congr {m' : Magnitude} {sign sign' : Bool}
    (h : toPlaces s.fractionDigits m'.toRat = toPlaces s.fractionDigits m.toRat)
    (hs : sign' = sign ∨ toPlaces s.fractionDigits m.toRat = 0) :
    s.render (.finite sign' m') = s.render (.finite sign m) := by
  have hq : (Decimal.ofMagnitude m').quantize s.fractionDigits
      = (Decimal.ofMagnitude m).quantize s.fractionDigits :=
    Decimal.quantize_congr (Decimal.coarse_ofMagnitude m') (Decimal.coarse_ofMagnitude m)
      (by rwa [Decimal.toRat_ofMagnitude, Decimal.toRat_ofMagnitude])
  unfold render
  dsimp only
  rw [hq]
  rcases hy : (Decimal.ofMagnitude m).quantize s.fractionDigits with e | y
  · rfl
  · rcases hs with rfl | hzero
    · rfl
    · -- zero is written without a sign
      rw [← Decimal.toRat_ofMagnitude,
        ← Decimal.toRat_of_quantize (Decimal.coarse_ofMagnitude m) hy,
        Decimal.toRat_eq_zero_iff] at hzero
      simp [renderRounded, hzero]

/-! ## The text -/

/-- A text spells `q` with `places` fraction digits in the notation of a specifier. The digits of
`integer` and `fraction` together count `|q|` in units of the last place. -/
structure Spells (s : Specifier) (q : ℚ) (places : ℕ) (integer fraction w : Text) : Prop where
  text : w = (if q < 0 then [.char '-'] else []) ++ integer ++
    if s.fractionDigits = 0 then [] else s.separator.symbol :: fraction
  allDigits : AllDigits (integer ++ fraction)
  whole : digitsValue integer = ⌊|q|⌋.toNat
  length_integer : integer.length = max s.integerDigits (digitCount ⌊|q|⌋.toNat)
  length_fraction : fraction.length = places
  value : digitsValue (integer ++ fraction) = |q| * 10 ^ places

/-- What shows the size of a double spells the rounded double. -/
theorem Prints.spells (h : s.Prints negative m.toRat w) :
    s.Spells (toPlaces s.fractionDigits (signed negative m.toRat))
      (min s.fractionDigits Decimal.finestPlaces) (Numeral.ofText w).integer
      (Numeral.ofText w).fraction w := by
  have hq : 0 ≤ toPlaces s.fractionDigits m.toRat := toPlaces_nonneg _ m.toRat_nonneg
  rw [toPlaces_signed]
  constructor
  · have hsign : (Numeral.ofText w).sign.toList =
        if signed negative (toPlaces s.fractionDigits m.toRat) < 0 then [.char '-'] else [] := by
      rw [h.sign]
      simp only [signed_neg_iff negative hq]
      split <;> rfl
    conv_lhs => rw [← h.spelled, Numeral.spelledWith, hsign]
    simp only [h.fraction_eq_nil_iff]
  · exact h.plain.integer.append h.plain.fraction
  · rw [abs_signed _ hq, h.integer, digitsValue_paddedDigits]
  · rw [abs_signed _ hq, h.integer, length_paddedDigits]
  · exact h.fraction
  · rw [abs_signed _ hq, ← h.toRat, ← h.fraction, Numeral.toRat, Numeral.decimal, Decimal.toRat,
      zpow_neg, zpow_natCast, inv_mul_cancel_right₀ (pow_ne_zero _ (by norm_num))]

/-- The number that a text shows is read as a finite double, which is rounded to the same. -/
theorem Prints.exists_value (h : s.Prints negative m.toRat w) :
    ∃ k : Magnitude, (Numeral.ofText w).value = .finite (Numeral.ofText w).isNegative k ∧
      k.toRat = nearestDouble (Numeral.ofText w).toRat ∧
        toPlaces s.fractionDigits k.toRat = toPlaces s.fractionDigits m.toRat := by
  obtain ⟨bound, hbound⟩ := m.exists_toPlaces_le s.fractionDigits
  rw [← h.toRat] at hbound
  obtain ⟨k, hk, hkr⟩ : ∃ k : Magnitude,
      (Numeral.ofText w).value = .finite (Numeral.ofText w).isNegative k ∧
        k.toRat = nearestDouble (Numeral.ofText w).toRat :=
    Decimal.exists_toDouble (Numeral.ofText w).isNegative hbound
  exact ⟨k, hk, hkr, by rw [hkr, h.toRat, toPlaces_nearestDouble_toPlaces]⟩

/-- The text of a double spells it, rounded once to the fraction digits, unless the rounded number
has more than 28 digits: then there is none. Zero has no text beyond the greatest count of places,
and up to there it has no more fraction digits than numbers have. -/
theorem render_exact (s : Specifier) (negative : Bool) (m : Magnitude) :
    let q := toPlaces s.fractionDigits (signed negative m.toRat)
    (s.render (.finite negative m) = .error (.arithmetic .precision) ↔
      10 ^ 28 ≤ |q| * 10 ^ s.fractionDigits ∨
        m.toRat = 0 ∧ Decimal.shiftLimit < s.fractionDigits) ∧
    (s.render (.finite negative m) ≠ .error (.arithmetic .precision) →
      ∃ integer fraction w, s.render (.finite negative m) = .ok w ∧
        s.Spells q (min s.fractionDigits Decimal.finestPlaces) integer fraction w) ∧
    (Decimal.finestPlaces < s.fractionDigits →
      s.render (.finite negative m) ≠ .error (.arithmetic .precision) → m.toRat = 0) := by
  intro q
  have hok (h : s.render (.finite negative m) ≠ .error (.arithmetic .precision)) :
      ∃ w, s.render (.finite negative m) = .ok w := by
    rcases hw : s.render (.finite negative m) with e | w
    · rw [hw, render_finite_eq_error hw] at h
      exact absurd rfl h
    · exact ⟨w, rfl⟩
  refine ⟨?_, fun h => ?_, fun hf h => ?_⟩
  · have hq : |q| = toPlaces s.fractionDigits m.toRat := by
      rw [show q = signed negative _ from toPlaces_signed _ _ _]
      exact abs_signed _ (toPlaces_nonneg _ m.toRat_nonneg)
    rw [hq]
    exact render_eq_error_iff
  · obtain ⟨w, hw⟩ := hok h
    exact ⟨_, _, w, hw, (prints_of_render hw).spells⟩
  · obtain ⟨w, hw⟩ := hok h
    exact toRat_eq_zero_of_render hw hf

/-- Rounding up lengthens the whole part. -/
theorem render_exact_carry :
    ∃ m integer fraction, Double.ofRatio true 249 25 = .finite true m ∧
      (fractional .latitude 0 .point 0).render (.finite true m) = .ok (Text.lit "-10.0") ∧
      (fractional .latitude 0 .point 0).Spells (toPlaces 1 (signed true m.toRat)) 1
        integer fraction (Text.lit "-10.0") := by
  obtain ⟨m, hx⟩ := Double.exists_eq_of_isFinite
    (show (Double.ofRatio true 249 25).isFinite = true by decide +kernel)
  have hrender : (fractional .latitude 0 .point 0).render (.finite true m) =
      .ok (Text.lit "-10.0") := by
    rw [← hx]
    decide +kernel
  obtain ⟨integer, fraction, w, hw, hspells⟩ :=
    (render_exact (fractional .latitude 0 .point 0) true m).2.1 (by rw [hrender]; exact nofun)
  rw [hrender] at hw
  cases hw
  exact ⟨m, integer, fraction, hx, hrender, hspells⟩

/-! ## Too many places -/

theorem Spells.length_eq {q : ℚ} {places : ℕ} (h : s.Spells q places integer fraction w)
    (hf : s.fractionDigits ≠ 0) :
    w.length = (if q < 0 then 1 else 0) + max s.integerDigits (digitCount ⌊|q|⌋.toNat)
      + (places + 1) := by
  rw [h.text, if_neg hf, List.length_append, List.length_append, h.length_integer,
    List.length_cons, h.length_fraction]
  split <;> rfl

/-- Zero has a text up to the greatest count of places. -/
theorem exists_render_zero (hf : s.fractionDigits ≤ Decimal.shiftLimit) (negative : Bool) :
    ∃ w, s.render (.finite negative .zero) = .ok w ∧ s.Prints negative 0 w := by
  rcases hw : s.render (.finite negative .zero) with e | w
  · obtain rfl := render_finite_eq_error hw
    rcases render_eq_error_iff.1 hw with hlarge | ⟨-, hlt⟩
    · rw [Magnitude.toRat_zero, toPlaces_zero, zero_mul] at hlarge
      exact absurd hlarge (by norm_num)
    · omega
  · have hp := prints_of_render hw
    rw [Magnitude.toRat_zero] at hp
    exact ⟨w, rfl, hp⟩

/-- The text of zero is too short where more fraction digits are asked for than numbers have. -/
theorem exists_render_not_spells (hlt : Decimal.finestPlaces < s.fractionDigits)
    (hle : s.fractionDigits ≤ Decimal.shiftLimit) :
    ∃ w, s.render .zero = .ok w ∧
      ∀ integer fraction, ¬ s.Spells 0 s.fractionDigits integer fraction w := by
  obtain ⟨w, hw, hp⟩ := exists_render_zero hle false
  refine ⟨w, hw, fun integer fraction h => ?_⟩
  rw [← Magnitude.toRat_zero] at hp
  have hshort := hp.spells
  rw [Magnitude.toRat_zero, show signed false 0 = 0 from rfl, toPlaces_zero] at hshort
  have hf : s.fractionDigits ≠ 0 := by omega
  have := hshort.length_eq hf
  have := h.length_eq hf
  omega

/-- One fraction digit of zero is missing. -/
theorem render_zero_short :
    ∃ w, (fractional .latitude 0 .point 1000026).render .zero = .ok w ∧
      ∀ integer fraction,
        ¬ (fractional .latitude 0 .point 1000026).Spells 0 1000027 integer fraction w :=
  exists_render_not_spells (s := fractional .latitude 0 .point 1000026) (by decide) (by decide)

end Specifier

end GeoPattern
