/-
The split of an angle of any size. Degrees, minutes and seconds are exact parts of a total that is
rounded once: they add up to it, and neither minutes nor seconds are as many as sixty. An angle is
refused exactly if its total has more than 28 digits, except that zero, which has none, is refused
beyond the greatest count of places.
Main statements: `split_eq_error_iff`, `addUp_of_split`, `parts_exact`.
-/
import GeoPattern.Proofs.Number.Precision

namespace GeoPattern

namespace Angle

variable {m : Magnitude} {unit : MeasureUnit} {places : ℕ} {p : Parts} {t : Decimal}

/-! ## Refusal -/

theorem total_eq_error_iff (hu : unit ≠ .meter) : total m unit places = .error .precision ↔
    10 ^ 28 ≤ toPlaces places (measure m unit) * 10 ^ places ∨
      m.toRat = 0 ∧ Decimal.shiftLimit < places := by
  obtain ⟨x, hx, hm, ht⟩ := exists_total_eq_quantize hu m places
  rw [ht, Decimal.quantize_eq_error_iff hx, hm, measure_eq_zero_iff]

/-- A split is refused for its total only. -/
theorem split_eq_error_iff :
    split m unit places = .error .precision ↔ total m unit places = .error .precision := by
  constructor
  · intro h
    rcases ht : total m unit places with e | t
    · rw [total_eq_error ht]
    · obtain ⟨p, hp⟩ := exists_split ht
      rw [hp] at h
      cases h
  · intro h
    unfold split
    rw [h]
    rfl

theorem parts_eq_error_iff {negative : Bool} :
    Angle.parts (.finite negative m) unit places = .error .precision ↔
      split m unit places = .error .precision := by
  unfold Angle.parts
  dsimp only
  rcases split m unit places with e | p
  · constructor <;> rintro ⟨⟩ <;> rfl
  · exact iff_of_false nofun nofun

/-! ## The sum -/

/-- The parts of an angle, counted in its finest unit, make a total. Only the finest part may have a
fraction, what is finer is zero, and neither minutes nor seconds are as many as sixty. -/
structure Parts.AddUp (p : Parts) (unit : MeasureUnit) (total : ℚ) : Prop where
  sum : p.degrees.toRat * unit.perDegree + p.minutes.toRat * (unit.perDegree / 60)
    + p.seconds.toRat * (unit.perDegree / 3600) = total
  degrees : unit ≠ .degree → ∃ d : ℕ, p.degrees.toRat = d
  minutes : unit = .second → ∃ k : ℕ, p.minutes.toRat = k
  minutes_mem : p.minutes.toRat ∈ Set.Ico 0 60
  seconds_mem : p.seconds.toRat ∈ Set.Ico 0 60
  finer : (unit = .degree → p.minutes.toRat = 0) ∧ (unit ≠ .second → p.seconds.toRat = 0)

theorem addUp_of_split (hu : unit ≠ .meter) (h : split m unit places = .ok p) :
    ∃ t, total m unit places = .ok t ∧ p.AddUp unit t.toRat := by
  have hm := p.minutes.toRat_nonneg
  have hs := p.seconds.toRat_nonneg
  cases unit with
  | meter => exact absurd rfl hu
  | degree =>
    unfold split at h
    rcases ht : total m .degree places with e | t <;> rw [ht] at h <;> cases h
    refine ⟨t, rfl, ?_, fun h => absurd rfl h, MeasureUnit.noConfusion, ⟨hm, ?_⟩, ⟨hs, ?_⟩,
      fun _ => ?_, fun _ => ?_⟩
    all_goals simp [MeasureUnit.perDegree]
  | minute =>
    obtain ⟨t, d, ht, hd, ⟨-, hsum, hlt, hzero⟩ | ⟨h, -⟩⟩ := split_spec (.inl rfl) h
    · refine ⟨t, ht, ?_, fun _ => ⟨d, by rw [hd, Decimal.toRat_whole]⟩, MeasureUnit.noConfusion,
        ⟨hm, hlt⟩, ⟨hs, ?_⟩, MeasureUnit.noConfusion, fun _ => ?_⟩
      · rw [hd, hzero, hsum]
        simp [MeasureUnit.perDegree]
      · rw [hzero]
        simp
      · rw [hzero, Decimal.toRat_zero]
    · cases h
  | second =>
    obtain ⟨t, d, ht, hd, ⟨h, -⟩ | ⟨-, k, hk, hk60, hsum, hlt⟩⟩ := split_spec (.inr rfl) h
    · cases h
    · refine ⟨t, ht, ?_, fun _ => ⟨d, by rw [hd, Decimal.toRat_whole]⟩,
        fun _ => ⟨k, by rw [hk, Decimal.toRat_whole]⟩, ⟨hm, ?_⟩, ⟨hs, hlt⟩,
        MeasureUnit.noConfusion, fun h => absurd rfl h⟩
      · rw [hd, hk, hsum]
        norm_num [MeasureUnit.perDegree]
      · rw [hk, Decimal.toRat_whole]
        exact_mod_cast hk60

/-- The decimal parts of an angle add up to its size, rounded once to the fraction digits of the
finest unit, unless that takes more than 28 digits: then there are none. There are none of zero
either beyond the greatest count of places. -/
theorem parts_exact (hu : unit ≠ .meter) (negative : Bool) (m : Magnitude) (places : ℕ) :
    let total := toPlaces places (measure m unit)
    (Angle.parts (.finite negative m) unit places = .error .precision ↔
      10 ^ 28 ≤ total * 10 ^ places ∨ m.toRat = 0 ∧ Decimal.shiftLimit < places) ∧
    (Angle.parts (.finite negative m) unit places ≠ .error .precision →
      ∃ p, split m unit places = .ok p ∧ p.AddUp unit total ∧
        Angle.parts (.finite negative m) unit places = .ok
          (p.degrees.toDouble false, p.minutes.toDouble false, p.seconds.toDouble false)) ∧
    |total - measure m unit| ≤ 1 / 2 / 10 ^ places := by
  intro total
  refine ⟨?_, fun h => ?_, abs_toPlaces_sub_le places _⟩
  · rw [parts_eq_error_iff, split_eq_error_iff, total_eq_error_iff hu]
  · rw [Ne, parts_eq_error_iff] at h
    rcases hp : split m unit places with e | p
    · rw [hp, split_eq_error hp] at h
      exact absurd rfl h
    · obtain ⟨t, ht, hadd⟩ := addUp_of_split hu hp
      rw [toRat_total hu ht] at hadd
      exact ⟨p, rfl, hadd, parts_eq_ok_iff.2 ⟨p, hp, rfl⟩⟩

/-- A rounded up second is carried on to the degrees. -/
theorem parts_exact_carry :
    ∃ m, Double.ofRatio true 1099999999 100000000 = .finite true m ∧
      MeasureUnit.second ≠ .meter ∧
      Angle.parts (.finite true m) .second 3 = .ok (.ofRatio false 11 1, .zero, .zero) ∧
      ∃ p, split m .second 3 = .ok p ∧
        p.AddUp .second (toPlaces 3 (measure m .second)) := by
  obtain ⟨m, hx⟩ := Double.exists_eq_of_isFinite
    (show (Double.ofRatio true 1099999999 100000000).isFinite = true by decide +kernel)
  have hparts : Angle.parts (.finite true m) .second 3 =
      .ok (.ofRatio false 11 1, .zero, .zero) := by
    rw [← hx]
    decide +kernel
  have hu : MeasureUnit.second ≠ .meter := nofun
  obtain ⟨p, hp, hadd, -⟩ := (parts_exact hu true m 3).2.1 (by
    rw [show ((3 : ℕ) : ℤ) = 3 from rfl, hparts]
    exact nofun)
  exact ⟨m, hx, hu, hparts, p, hp, hadd⟩

/-! ## Too many places -/

/-- Beyond the greatest count of places there are no parts of zero, which has no digits at all. -/
theorem parts_zero_of_lt (h : Decimal.shiftLimit < places) (unit : MeasureUnit) :
    Angle.parts .zero unit places = .error .precision := by
  have hfar : Decimal.shiftLimit < (places : ℤ).natAbs := h
  refine parts_eq_error_iff.2 (split_eq_error_iff.2 ?_)
  cases unit <;> exact if_pos hfar

theorem parts_zero_refused :
    ∃ m : Magnitude, Double.zero = .finite false m ∧
      toPlaces 2000055 (measure m .second) * 10 ^ 2000055 < 10 ^ 28 ∧
      Angle.parts (.finite false m) .second (2000055 : ℕ) = .error .precision := by
  have hround (n : ℕ) : toPlaces n 0 * 10 ^ n < 10 ^ 28 := by
    rw [toPlaces_zero, zero_mul]
    positivity
  refine ⟨_, rfl, ?_, parts_zero_of_lt (by decide) .second⟩
  rw [(measure_eq_zero_iff _ _).2 Magnitude.toRat_zero]
  exact hround 2000055

end Angle

end GeoPattern
