/-
A text that is read and written again does not change. The double that is read of the text of a
double is the one nearest to the rounded number. So it is no farther from that number than the
double that was written, and is rounded to it again, whether the digits are finer than the distance
of the doubles there or coarser.
Main statement: `render_stable`.
-/
import GeoPattern.Proofs.Number.LongestMatch
import GeoPattern.Proofs.Number.Rendering

namespace GeoPattern

namespace Specifier

variable {s : Specifier} {negative : Bool} {m : Magnitude} {w : Text}

/-- A text that shows a number is in the grammar of the numbers that may have a sign. -/
theorem Prints.admits (h : s.Prints negative m.toRat w) :
    s.Admits true false (Numeral.ofText w) where
  scanned := h.plain.scanned nofun
  hasDigits := h.plain.hasDigits
  whole := h.fraction_eq_nil_iff.2
  integer_le := nofun
  fraction_le := nofun

/-- The whole of such a text is read. -/
theorem Prints.read_eq (h : s.Prints negative m.toRat w) :
    s.read true false w (.start 0) = (.ok (Numeral.ofText w).value, .start w.length) := by
  have hscan := scan_spelledWith_of_admits h.admits
  have hlength := Numeral.length_spelledWith (Numeral.ofText w) s.separator
  rw [h.spelled] at hscan hlength
  have hread : s.read true false w (.start 0) = _ :=
    s.read_eq true false le_rfl (Nat.cast_nonneg _)
  rw [hread]
  dsimp only [Cursor.start]
  rw [Int.toNat_zero, List.drop_zero, hscan, if_pos h.plain.hasDigits, ← hlength, Cursor.advance,
    zero_add]

/-- The text of a double is read to its end, with its sign, and what is read is written as the same
text, whatever the count of fraction digits. -/
theorem render_stable {value : Double} (h : s.render value = .ok w) :
    ∃ again, s.read true false w (.start 0) = (.ok again, .start w.length) ∧
      s.render again = .ok w := by
  obtain ⟨negative, m, -, rfl, -, -⟩ := render_eq_ok_iff.1 h
  have hprints := prints_of_render h
  obtain ⟨k, hk, -, hround⟩ := hprints.exists_value
  refine ⟨_, hprints.read_eq, ?_⟩
  rw [hk, ← h]
  apply render_congr hround
  -- the minus sign is missing just where the number is rounded to zero
  by_cases hzero : toPlaces s.fractionDigits m.toRat = 0
  · exact .inr hzero
  · left
    rw [Numeral.isNegative, hprints.sign]
    cases negative <;> simp [hzero]

/-- 27 fraction digits are more than a double resolves, and one is so few that a double halfway
between two of them is rounded to the even one. -/
theorem render_stable_fine_and_coarse :
    ((fractional .latitude 0 .point 26).render (Double.ofRatio false 1 10) =
        .ok (Text.lit "0.100000000000000005551115123") ∧
      ∃ again, (fractional .latitude 0 .point 26).read true false
          (Text.lit "0.100000000000000005551115123") (.start 0) = (.ok again, .start 29) ∧
        (fractional .latitude 0 .point 26).render again =
          .ok (Text.lit "0.100000000000000005551115123")) ∧
    (fractional .latitude 1 .comma 0).render (Double.ofRatio true 1 4) =
        .ok (Text.lit "-00,2") ∧
      ∃ again, (fractional .latitude 1 .comma 0).read true false (Text.lit "-00,2") (.start 0) =
          (.ok again, .start 5) ∧
        (fractional .latitude 1 .comma 0).render again = .ok (Text.lit "-00,2") := by
  have hfine : (fractional .latitude 0 .point 26).render (Double.ofRatio false 1 10) =
      .ok (Text.lit "0.100000000000000005551115123") := by decide +kernel
  have hcoarse : (fractional .latitude 1 .comma 0).render (Double.ofRatio true 1 4) =
      .ok (Text.lit "-00,2") := by decide +kernel
  exact ⟨⟨hfine, render_stable hfine⟩, hcoarse, render_stable hcoarse⟩

end Specifier

end GeoPattern
