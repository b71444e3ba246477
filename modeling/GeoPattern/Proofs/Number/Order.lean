/-
Angles in order. Both roundings of an angle keep the order of sizes, and parts that add up to a
total, with minutes and seconds below sixty, are in the order of their totals when the degrees are
compared first and the seconds last. So a greater angle never has smaller parts, on neither side of
a carry; and where it has room for its digits, every smaller one has.
Main statements: `AddUp.rank_le_rank_iff`, `parts_mono`.
-/
import GeoPattern.Proofs.Number.Near
import GeoPattern.Proofs.Number.Split
import Mathlib.Data.Prod.Lex

namespace GeoPattern

namespace Angle

variable {m m' : Magnitude} {unit : MeasureUnit} {places : ℕ} {p p' : Parts} {t' : Decimal}

/-! ## Totals -/

theorem measure_mono (h : m.toRat ≤ m'.toRat) (unit : MeasureUnit) :
    measure m unit ≤ measure m' unit := by
  have hproduct : toSignificant Decimal.precision (m.toRat * unit.perDegree) ≤
      toSignificant Decimal.precision (m'.toRat * unit.perDegree) := by
    apply toSignificant_mono (by decide) (mul_nonneg m.toRat_nonneg (Nat.cast_nonneg _))
    gcongr
  cases unit with
  | degree | meter => exact h
  | minute | second => exact hproduct

/-- A smaller angle has a total where a greater one has, and not a greater one. -/
theorem exists_total_le (hu : unit ≠ .meter) (h : m.toRat ≤ m'.toRat)
    (ht' : total m' unit places = .ok t') :
    ∃ t, total m unit places = .ok t ∧ t.toRat ≤ t'.toRat := by
  have hle := toPlaces_mono places (measure_mono h unit)
  rcases ht : total m unit places with e | t
  · obtain rfl := total_eq_error ht
    rcases (total_eq_error_iff hu).1 ht with hlarge | ⟨-, hfar⟩
    -- too many digits: the greater total has as many
    · have hlarge' : 10 ^ 28 ≤ toPlaces places (measure m' unit) * 10 ^ places :=
        hlarge.trans (by gcongr)
      rw [(total_eq_error_iff hu).2 (.inl hlarge')] at ht'
      cases ht'
    -- too many places: they are refused whatever the angle is
    · obtain ⟨x, hx⟩ := quantize_of_total ht'
      have hplaces := (Decimal.quantize_eq_ok_iff.1 hx).1
      omega
  · refine ⟨t, rfl, ?_⟩
    rw [toRat_total hu ht, toRat_total hu ht']
    exact hle

/-! ## Parts -/

/-- The parts as they are compared: by their degrees, then by their minutes, then by their
seconds. -/
def Parts.rank (p : Parts) : ℚ ×ₗ ℚ ×ₗ ℚ :=
  toLex (p.degrees.toRat, toLex (p.minutes.toRat, p.seconds.toRat))

theorem Parts.rank_le_rank : p.rank ≤ p'.rank ↔
    p.degrees.toRat < p'.degrees.toRat ∨ p.degrees.toRat = p'.degrees.toRat ∧
      (p.minutes.toRat < p'.minutes.toRat ∨ p.minutes.toRat = p'.minutes.toRat ∧
        p.seconds.toRat ≤ p'.seconds.toRat) := by
  unfold rank
  rw [Prod.Lex.toLex_le_toLex, Prod.Lex.toLex_le_toLex]

/-- With a rest that is smaller than the step, the count of steps is compared first. -/
theorem mul_add_le_mul_add_iff {j k : ℕ} {n r r' : ℚ} (hr : r ∈ Set.Ico 0 n)
    (hr' : r' ∈ Set.Ico 0 n) :
    j * n + r ≤ k * n + r' ↔ (j : ℚ) < k ∨ (j : ℚ) = k ∧ r ≤ r' := by
  have hn : 0 ≤ n := hr.1.trans hr.2.le
  have hstep {a b : ℕ} {x y : ℚ} (hab : a < b) (hx : x ∈ Set.Ico 0 n) (hy : y ∈ Set.Ico 0 n) :
      a * n + x < b * n + y := by
    have hsucc : (a : ℚ) + 1 ≤ b := by exact_mod_cast hab
    have := mul_le_mul_of_nonneg_right hsucc hn
    linarith [hx.2, hy.1]
  rcases lt_trichotomy j k with h | rfl | h
  · exact iff_of_true (hstep h hr hr').le (.inl (by exact_mod_cast h))
  · simp
  · refine iff_of_false (not_le.2 (hstep h hr' hr)) ?_
    rintro (hlt | ⟨heq, -⟩)
    · exact absurd h (not_lt.2 (by exact_mod_cast hlt.le))
    · exact absurd h (not_lt.2 (by exact_mod_cast heq.le))

/-- Parts are in the order of the totals that they make. -/
theorem Parts.AddUp.rank_le_rank_iff {total total' : ℚ} (hu : unit ≠ .meter)
    (h : p.AddUp unit total) (h' : p'.AddUp unit total') : p.rank ≤ p'.rank ↔ total ≤ total' := by
  rw [Parts.rank_le_rank, ← h.sum, ← h'.sum]
  cases unit with
  | meter => exact absurd rfl hu
  | degree =>
    have hsecond : MeasureUnit.degree ≠ .second := MeasureUnit.noConfusion
    rw [h.finer.1 rfl, h'.finer.1 rfl, h.finer.2 hsecond, h'.finer.2 hsecond]
    simp [MeasureUnit.perDegree, le_iff_lt_or_eq]
  | minute =>
    obtain ⟨d, hd⟩ := h.degrees MeasureUnit.noConfusion
    obtain ⟨d', hd'⟩ := h'.degrees MeasureUnit.noConfusion
    have hrest := mul_add_le_mul_add_iff (j := d) (k := d') h.minutes_mem h'.minutes_mem
    have hsecond : MeasureUnit.minute ≠ .second := MeasureUnit.noConfusion
    rw [hd, hd', h.finer.2 hsecond, h'.finer.2 hsecond]
    simpa [MeasureUnit.perDegree, le_iff_lt_or_eq] using hrest.symm
  | second =>
    obtain ⟨d, hd⟩ := h.degrees MeasureUnit.noConfusion
    obtain ⟨d', hd'⟩ := h'.degrees MeasureUnit.noConfusion
    obtain ⟨k, hk⟩ := h.minutes rfl
    obtain ⟨k', hk'⟩ := h'.minutes rfl
    -- the minutes are whole, so that fifty-nine of them and the seconds are below a degree
    have hbelow {p : Parts} {total : ℚ} {k : ℕ} (hp : p.AddUp .second total)
        (hk : p.minutes.toRat = k) : k * 60 + p.seconds.toRat ∈ Set.Ico (0 : ℚ) 3600 := by
      have hlt := hp.minutes_mem.2
      rw [hk] at hlt
      have hle : (k : ℚ) ≤ 59 := by
        have : k < 60 := by exact_mod_cast hlt
        exact_mod_cast Nat.le_of_lt_succ this
      have hs := hp.seconds_mem
      constructor
      · linarith [hs.1, Nat.cast_nonneg (α := ℚ) k]
      · linarith [hs.2]
    have hdegrees := mul_add_le_mul_add_iff (j := d) (k := d') (hbelow h hk) (hbelow h' hk')
    rw [mul_add_le_mul_add_iff h.seconds_mem h'.seconds_mem] at hdegrees
    rw [hd, hd', hk, hk', ← hdegrees]
    norm_num [MeasureUnit.perDegree, add_assoc]

/-- The parts as doubles. -/
def Parts.toDoubles (p : Parts) : Double × Double × Double :=
  (p.degrees.toDouble false, p.minutes.toDouble false, p.seconds.toDouble false)

theorem exists_split_le (hle : m.toRat ≤ m'.toRat) (h : split m' unit places = .ok p') :
    ∃ p, split m unit places = .ok p ∧ p.rank ≤ p'.rank := by
  have key {u : MeasureUnit} (hu : u ≠ .meter) (h : split m' u places = .ok p') :
      ∃ p, split m u places = .ok p ∧ p.rank ≤ p'.rank := by
    obtain ⟨t', ht', hadd'⟩ := addUp_of_split hu h
    obtain ⟨t, ht, htle⟩ := exists_total_le hu hle ht'
    obtain ⟨p, hp⟩ := exists_split ht
    obtain ⟨t₀, ht₀, hadd⟩ := addUp_of_split hu hp
    obtain rfl : t = t₀ := Except.ok.inj (ht.symm.trans ht₀)
    exact ⟨p, hp, (hadd.rank_le_rank_iff hu hadd').2 htle⟩
  cases unit with
  | meter => exact key (u := .second) MeasureUnit.noConfusion h
  | _ => exact key MeasureUnit.noConfusion h

/-- A smaller angle is split where a greater one is, into parts that are not greater. -/
theorem parts_mono (hle : m.toRat ≤ m'.toRat) (negative negative' : Bool) (unit : MeasureUnit)
    (places : ℕ) {doubles : Double × Double × Double}
    (h : Angle.parts (.finite negative' m') unit places = .ok doubles) :
    ∃ p p', split m unit places = .ok p ∧ split m' unit places = .ok p' ∧ p.rank ≤ p'.rank ∧
      Angle.parts (.finite negative m) unit places = .ok p.toDoubles ∧ doubles = p'.toDoubles := by
  obtain ⟨p', hp', rfl⟩ := parts_eq_ok_iff.1 h
  obtain ⟨p, hp, hrank⟩ := exists_split_le hle hp'
  exact ⟨p, p', hp, hp', hrank, parts_eq_ok_iff.2 ⟨p, hp, rfl⟩, rfl⟩

/-- A second that is rounded up to a minute is not below the seconds in front of it. -/
theorem parts_mono_carry :
    ∃ m m', Double.ofRatio true 166665 10000000 = .finite true m ∧
      Double.ofRatio false 1 60 = .finite false m' ∧ m.toRat ≤ m'.toRat ∧
      Angle.parts (.finite false m') .second 3 = .ok (.zero, .ofRatio false 1 1, .zero) ∧
      Angle.parts (.finite true m) .second 3 = .ok (.zero, .zero, .ofRatio false 59999 1000) ∧
      ∃ p p', split m .second 3 = .ok p ∧ split m' .second 3 = .ok p' ∧ p.rank ≤ p'.rank := by
  obtain ⟨m, hx⟩ := Double.exists_eq_of_isFinite
    (show (Double.ofRatio true 166665 10000000).isFinite = true by decide +kernel)
  obtain ⟨m', hx'⟩ := Double.exists_eq_of_isFinite
    (show (Double.ofRatio false 1 60).isFinite = true by decide +kernel)
  -- the quotients are further apart than their roundings to doubles can be off
  have hle : m.toRat ≤ m'.toRat := by
    rw [(Double.toRat_ofRatio (by norm_num) hx).2, (Double.toRat_ofRatio (by norm_num) hx').2]
    have hoff := abs_le.1 (abs_nearestDouble_sub_le_of_lt
      (show ((166665 : ℕ) : ℚ) / (10000000 : ℕ) < 1024 by norm_num))
    have hoff' := abs_le.1 (abs_nearestDouble_sub_le_of_lt
      (show ((1 : ℕ) : ℚ) / (60 : ℕ) < 1024 by norm_num))
    have hgap : ((166665 : ℕ) : ℚ) / (10000000 : ℕ) + 1 / 2 ^ 44 + 1 / 2 ^ 44 ≤
        ((1 : ℕ) : ℚ) / (60 : ℕ) := by norm_num
    linarith [hoff.2, hoff'.1]
  have hparts : Angle.parts (.finite true m) .second 3 =
      .ok (.zero, .zero, .ofRatio false 59999 1000) := by
    rw [← hx]
    decide +kernel
  have hparts' : Angle.parts (.finite false m') .second 3 =
      .ok (.zero, .ofRatio false 1 1, .zero) := by
    rw [← hx']
    decide +kernel
  obtain ⟨p, p', hp, hp', hrank, -⟩ := parts_mono hle true false .second 3 hparts'
  exact ⟨m, m', hx, hx', hle, hparts', hparts, p, p', hp, hp', hrank⟩

end Angle

end GeoPattern
