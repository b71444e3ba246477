/-
How far the parts of an angle are off once they were read as doubles and added up. Below 1024 each
rounding on the way changes a number by `2 ^ -44` at most, so that the sum of a few parts is
still rounded to the same fraction digits.
Main statements: `Near.foldl_add`, `toPlaces_measure_of_near`.
-/
import GeoPattern.Proofs.Number.Angle
import GeoPattern.Proofs.Number.Nearest

namespace GeoPattern

/-- Below 1024 a rounding to a double changes a number by `2 ^ -44` at most. -/
theorem abs_nearestDouble_sub_le_of_lt {x : ℚ} (h : x < 1024) :
    |nearestDouble x - x| ≤ 1 / 2 ^ 44 := by
  have hspacing : doubleSpacing x ≤ 1 / 2 ^ 43 :=
    doubleSpacing_le (by norm_num) (h.trans_le (by norm_num))
  have hhalf := abs_nearestDouble_sub_le x
  linarith

/-! ## Near a number -/

/-- A double without a minus sign that `steps` roundings may have moved away from `q`; zero is not
moved. -/
def Near (x : Double) (q : ℚ) (steps : ℕ) : Prop :=
  ∃ m : Magnitude, x = .finite false m ∧ |m.toRat - q| ≤ steps / 2 ^ 44 ∧ (q = 0 → m.toRat = 0)

namespace Near

variable {x y : Double} {p q : ℚ} {j k : ℕ}

theorem zero : Near .zero 0 0 := ⟨.zero, rfl, by simp, by simp⟩

theorem mono (h : Near x q j) (hjk : j ≤ k) : Near x q k := by
  obtain ⟨m, hx, hm, hz⟩ := h
  have : (j : ℚ) ≤ k := by exact_mod_cast hjk
  exact ⟨m, hx, hm.trans (by gcongr), hz⟩

theorem abs_eq (h : Near x q k) : x.abs = x := by
  obtain ⟨m, rfl, -, -⟩ := h
  rfl

/-- A few steps do not lead beyond 1024. -/
theorem lt_of_abs_sub_le {m : ℚ} (hm : |m - q| ≤ k / 2 ^ 44) (hq : q ≤ 1000) (hk : k ≤ 16) :
    m < 1024 - 1 := by
  have hk' : (k : ℚ) ≤ 16 := by exact_mod_cast hk
  have hle : (k : ℚ) / 2 ^ 44 ≤ 16 / 2 ^ 44 := by gcongr
  have := (abs_le.1 hm).2
  norm_num at hle
  linarith

/-- One more rounding is one more step. -/
theorem round {z : ℚ} {m : Magnitude} (hx : x = .finite false m) (hm : m.toRat = nearestDouble z)
    (hz : |z - q| ≤ k / 2 ^ 44) (hlt : z < 1024) (hzero : q = 0 → z = 0) : Near x q (k + 1) := by
  refine ⟨m, hx, ?_, fun h => ?_⟩
  · have hround := abs_nearestDouble_sub_le_of_lt hlt
    calc |m.toRat - q| ≤ |nearestDouble z - z| + |z - q| := by
          rw [hm]
          exact abs_sub_le _ _ _
      _ ≤ 1 / 2 ^ 44 + k / 2 ^ 44 := by gcongr
      _ = ((k + 1 : ℕ) : ℚ) / 2 ^ 44 := by
          push_cast
          ring
  · rw [hm, hzero h, nearestDouble_zero]

/-- A decimal is read in one step. -/
theorem toDouble {d : Decimal} (hq : d.toRat ≤ 1000) : Near (d.toDouble false) d.toRat 1 := by
  obtain ⟨bound, hbound⟩ := Magnitude.exists_two_pow (k := 10) (by norm_num)
  have hle : d.toRat ≤ bound.toRat := by
    rw [hbound]
    exact hq.trans (by norm_num)
  obtain ⟨m, hm, hmr⟩ := Decimal.exists_toDouble false hle
  exact round (k := 0) hm hmr (by simp) (by linarith) id

theorem divNat (h : Near x q k) (hq : q ≤ 1000) (hk : k ≤ 16) (hj : 0 < j) :
    Near (x.divNat j) (q / j) (k + 1) := by
  obtain ⟨m, rfl, hm, hz⟩ := h
  obtain ⟨n, hn, hnr⟩ := Double.exists_divNat false m hj
  have hj' : (1 : ℚ) ≤ j := by exact_mod_cast hj
  have hlt := lt_of_abs_sub_le hm hq hk
  have hdiv := div_le_self m.toRat_nonneg hj'
  refine round hn hnr ?_ (by linarith) fun h => ?_
  · rw [← sub_div, abs_div, abs_of_pos (by linarith : (0 : ℚ) < j)]
    exact (div_le_self (abs_nonneg _) hj').trans hm
  · rw [div_eq_zero_iff] at h
    rw [hz (h.resolve_right (by linarith)), zero_div]

theorem add (hx : Near x p j) (hy : Near y q k) (hp : 0 ≤ p) (hq : 0 ≤ q) (hsum : p + q ≤ 1000)
    (hk : j + k ≤ 16) : Near (x.add y) (p + q) (j + k + 1) := by
  obtain ⟨m, rfl, hm, hm0⟩ := hx
  obtain ⟨n, rfl, hn, hn0⟩ := hy
  have hdist : |m.toRat + n.toRat - (p + q)| ≤ ((j + k : ℕ) : ℚ) / 2 ^ 44 := by
    calc |m.toRat + n.toRat - (p + q)| = |(m.toRat - p) + (n.toRat - q)| := by ring_nf
      _ ≤ |m.toRat - p| + |n.toRat - q| := abs_add_le _ _
      _ ≤ j / 2 ^ 44 + k / 2 ^ 44 := by gcongr
      _ = ((j + k : ℕ) : ℚ) / 2 ^ 44 := by
          push_cast
          ring
  have hlt := lt_of_abs_sub_le hdist hsum hk
  obtain ⟨bound, hbound⟩ := Magnitude.exists_two_pow (k := 10) (by norm_num)
  obtain ⟨s, hs, hsr⟩ := Double.exists_add (show m.toRat + n.toRat ≤ bound.toRat by
    rw [hbound]
    linarith)
  refine round hs hsr hdist (by linarith) fun h => ?_
  rw [hm0 (by linarith), hn0 (by linarith), add_zero]

/-- The sum of parts that are two steps off takes three steps for each of them. -/
theorem foldl_add {xs : List Double} {qs : List ℚ}
    (h : List.Forall₂ (fun x q => Near x q 2) xs qs) (hqs : ∀ q ∈ qs, 0 ≤ q) (hx : Near x p j)
    (hp : 0 ≤ p) (hsum : p + qs.sum ≤ 1000) (hlen : j + 3 * xs.length ≤ 16) :
    Near (xs.foldl Double.add x) (p + qs.sum) (j + 3 * xs.length) := by
  induction h generalizing x p j with
  | nil => simpa using hx
  | @cons y q ys qs hy hrest ih =>
    have hq := hqs q List.mem_cons_self
    have hqs' : ∀ r ∈ qs, 0 ≤ r := fun r hr => hqs r (List.mem_cons_of_mem _ hr)
    have hrest0 := List.sum_nonneg hqs'
    rw [List.sum_cons, ← add_assoc] at hsum
    rw [List.length_cons] at hlen ⊢
    have hadd := hx.add hy hp hq (by linarith) (by omega)
    have hall := ih hqs' hadd (by linarith) hsum (by omega)
    rw [List.foldl_cons, List.sum_cons, ← add_assoc]
    rwa [show j + 2 + 1 + 3 * ys.length = j + 3 * (ys.length + 1) by omega] at hall

end Near

/-! ## Rounding it again -/

/-- The size of a component that is near a number with up to six fraction digits in a unit is
rounded to that number. -/
theorem toPlaces_measure_of_near {m : Magnitude} {unit : MeasureUnit} {q : ℚ} {places : ℕ} {n : ℤ}
    (hm : |m.toRat - q| ≤ 16 / 2 ^ 44) (hq : q ≤ 1000) (hu : unit = .minute ∨ unit = .second)
    (hp : places ≤ 6) (hn : q * unit.perDegree * 10 ^ places = n) :
    toPlaces places (Angle.measure m unit) = q * unit.perDegree := by
  have hm' : m.toRat < 1024 - 1 := Near.lt_of_abs_sub_le (k := 16) (by exact_mod_cast hm) hq le_rfl
  have hper : (0 : ℚ) ≤ unit.perDegree ∧ (unit.perDegree : ℚ) ≤ 3600 := by
    rcases hu with rfl | rfl <;> norm_num [MeasureUnit.perDegree]
  have hsize : m.toRat * unit.perDegree < 10 ^ 7 := by
    calc m.toRat * unit.perDegree ≤ (1024 - 1) * 3600 :=
          mul_le_mul hm'.le hper.2 hper.1 (by norm_num)
      _ < 10 ^ 7 := by norm_num
  -- 28 digits of a number below ten million have far more than six fraction digits
  have hdigits : |Angle.measure m unit - m.toRat * unit.perDegree| ≤ 1 / 2 * 10 ^ (-21 : ℤ) := by
    rw [Angle.measure_eq m hu]
    have hlast : lastDigit Decimal.precision (m.toRat * unit.perDegree) ≤ -21 :=
      Angle.lastDigit_le (k := 7) (by norm_num) hsize
    have hten : (10 : ℚ) ^ lastDigit Decimal.precision (m.toRat * unit.perDegree) ≤ 10 ^ (-21 : ℤ) :=
      zpow_le_zpow_right₀ (by norm_num) hlast
    exact (abs_toSignificant_sub_le _ _).trans (by gcongr)
  have hscale : |m.toRat * unit.perDegree - q * unit.perDegree| ≤ 16 / 2 ^ 44 * 3600 := by
    rw [← sub_mul, abs_mul, abs_of_nonneg hper.1]
    exact mul_le_mul hm hper.2 hper.1 (by norm_num)
  have hplaces : (10 : ℚ) ^ places ≤ 10 ^ 6 := pow_le_pow_right₀ (by norm_num) hp
  apply toPlaces_eq_of_abs_sub_lt hn
  calc |Angle.measure m unit - q * unit.perDegree|
      ≤ |Angle.measure m unit - m.toRat * unit.perDegree| +
          |m.toRat * unit.perDegree - q * unit.perDegree| := abs_sub_le _ _ _
    _ ≤ 1 / 2 * 10 ^ (-21 : ℤ) + 16 / 2 ^ 44 * 3600 := by gcongr
    _ < 1 / 2 / 10 ^ 6 := by norm_num
    _ ≤ 1 / 2 / 10 ^ places := by gcongr

end GeoPattern
