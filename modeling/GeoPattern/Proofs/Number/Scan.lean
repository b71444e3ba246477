/-
What a scan takes of any text: the numeral that it gives is spelled at the front of the text, with
digits around its separator and with a sign only where one is asked for.
Main statement: `scan_spec`.
-/
import Mathlib.Data.List.TakeWhile
import GeoPattern.Proofs.Number.Numeral

namespace GeoPattern

theorem digitRun_spec (limit : Option ℕ) (rest : Text) :
    AllDigits (digitRun limit rest) ∧ digitRun limit rest <+: rest := by
  cases limit with
  | none => exact ⟨fun _ hc => List.mem_takeWhile_imp hc, List.takeWhile_prefix _⟩
  | some count =>
    exact ⟨fun _ hc => List.mem_takeWhile_imp hc,
      (List.takeWhile_prefix _).trans (List.take_prefix _ _)⟩

namespace Specifier

variable (s : Specifier) (signed bounded : Bool) (rest : Text)

/-- The sign is taken off the front. -/
theorem scanSign_spec :
    rest = (scanSign signed rest).1.toList ++ (scanSign signed rest).2 ∧
      ∀ c, (scanSign signed rest).1 = some c → signed = true ∧ (c = .char '+' ∨ c = .char '-') := by
  unfold scanSign
  split
  · exact ⟨rfl, fun c hc => ⟨rfl, .inl (Option.some.inj hc).symm⟩⟩
  · exact ⟨rfl, fun c hc => ⟨rfl, .inr (Option.some.inj hc).symm⟩⟩
  · exact ⟨rfl, nofun⟩

/-- The fraction stands behind its separator; without digits there, the separator is not taken. -/
theorem scanFraction_spec (limit : Option ℕ) :
    AllDigits (s.scanFraction limit rest) ∧
      (if s.scanFraction limit rest = [] then []
        else s.separator.symbol :: s.scanFraction limit rest) <+: rest := by
  cases rest with
  | nil => exact ⟨allDigits_nil, List.prefix_refl _⟩
  | cons c more =>
    rw [scanFraction]
    split
    · rename_i h
      obtain ⟨hdigits, hfront⟩ := digitRun_spec limit more
      refine ⟨hdigits, ?_⟩
      split
      · exact List.nil_prefix
      · rw [h.2]
        exact List.prefix_cons_inj _ |>.2 hfront
    · exact ⟨allDigits_nil, List.nil_prefix⟩

/-- A scan takes the numeral that it gives from the front of the text. -/
theorem scan_spec :
    (s.scan signed bounded rest).Scanned signed ∧
      (s.scan signed bounded rest).spelledWith s.separator <+: rest := by
  obtain ⟨hrest, hsign⟩ := scanSign_spec signed rest
  unfold scan
  generalize scanSign signed rest = scanned at hrest hsign ⊢
  obtain ⟨sign, body⟩ := scanned
  obtain ⟨hint, hbody⟩ := digitRun_spec (if bounded then some s.integerDigits else none) body
  dsimp only at hrest hsign ⊢
  generalize digitRun (if bounded then some s.integerDigits else none) body = integer at hint hbody
  obtain ⟨behind, rfl⟩ := hbody
  rw [List.drop_left]
  obtain ⟨hfrac, hfront⟩ :=
    scanFraction_spec s behind (if bounded then some s.fractionDigits else none)
  refine ⟨⟨hsign, hint, hfrac⟩, ?_⟩
  rw [hrest, Numeral.spelledWith, List.append_assoc]
  exact List.prefix_append_right_inj _ |>.2 (List.prefix_append_right_inj _ |>.2 hfront)

end Specifier

end GeoPattern
