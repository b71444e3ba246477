/-
A leaf that was written is read back. What a field writes is a number in the notation of its
specifier, without a minus sign unless the field is signed; a sign mark and a literal write what
they look for. Each is read with just its own text, if a scan of a number ends where its text ends.
Main statements: `prints_of_render`, `readAt_render`, `endsBefore_of_readAt`.
-/
import GeoPattern.Proofs.Layout.Event
import GeoPattern.Proofs.Number.Angle

namespace GeoPattern

variable {location : Location} {w before behind : Text}

/-! ## What a field writes -/

namespace Field

variable {f : Field} {negative : Bool} {m : Magnitude}

/-- A number that is rounded from a quotient has the sign that was asked for. -/
theorem sign_ofRatio {sign : Bool} {num den : ℕ}
    (h : Double.ofRatio sign num den = .finite negative m) : negative = sign :=
  (Double.ofUnits_eq_finite h).1

theorem abs_nonneg {x : Double} (h : x.abs = .finite negative m) : negative = false := by
  cases x <;> cases h
  rfl

/-- An unsigned field writes no number of a finite component that is below zero. -/
theorem unsignedValue_nonneg {raw : Double} (hraw : raw.isFinite = true)
    (h : f.unsignedValue raw = .ok (.finite negative m)) : negative = false := by
  obtain ⟨sign, size, rfl⟩ := Double.exists_finite hraw
  unfold unsignedValue at h
  dsimp only at h
  split at h
  · exact abs_nonneg (Except.ok.inj h)
  split at h
  · split at h
    · exact sign_ofRatio (Except.ok.inj h)
    · exact abs_nonneg (Except.ok.inj h)
  · split at h
    · rename_i parts hp
      have hpart := Except.ok.inj h
      obtain ⟨p, -, rfl⟩ := Angle.parts_eq_ok_iff.1 hp
      unfold partOf at hpart
      split at hpart <;> exact sign_ofRatio hpart
    · cases h

end Field

namespace Leaf

/-- A field writes the number that it takes from the component of its axis. -/
theorem render_field_eq_ok_iff {f : Field} :
    (Leaf.field f).render location = .ok (some w) ↔ ∃ raw value,
      location.component f.specifier.quantity.axis = some raw ∧ f.value raw = .ok value ∧
        f.specifier.render value = .ok w := by
  unfold render
  dsimp only
  rcases location.component f.specifier.quantity.axis with - | raw
  · simp
  rcases hv : f.value raw with e | value
  · simp [hv, bind, Except.bind]
  rcases hw : f.specifier.render value with e | t
  · simp [hv, hw, bind, Except.bind]
  · simp [hv, hw, bind, Except.bind, pure, Except.pure]

/-- The number that a field writes is finite, and not below zero if the field is unsigned. -/
theorem prints_of_render {f : Field} (h : (Leaf.field f).render location = .ok (some w)) :
    ∃ raw negative m, location.component f.specifier.quantity.axis = some raw ∧
      f.value raw = .ok (.finite negative m) ∧
      (f.specifier.quantity.isSigned = false → negative = false) ∧
      f.specifier.Prints negative m.toRat w := by
  obtain ⟨raw, value, hraw, hv, hw⟩ := render_field_eq_ok_iff.1 h
  obtain ⟨negative, m, -, rfl, -, -⟩ := Specifier.render_eq_ok_iff.1 hw
  refine ⟨raw, negative, m, hraw, hv, fun hs => ?_, Specifier.prints_of_render hw⟩
  unfold Field.value at hv
  rw [hs, Bool.false_or] at hv
  split at hv
  · rename_i hfin
    cases hv
    cases hfin
  · rename_i hfin
    exact Field.unsignedValue_nonneg (by simpa using hfin) hv

/-- An unsigned field writes no sign. -/
theorem sign_ofText_of_render {f : Field} (h : (Leaf.field f).render location = .ok (some w))
    (hs : f.specifier.quantity.isSigned = false) : (Numeral.ofText w).sign = none := by
  obtain ⟨raw, negative, m, -, -, hpos, hp⟩ := prints_of_render h
  rw [hp.sign, hpos hs]
  simp

/-- A sign mark writes one of its two characters. -/
theorem render_sign {mark : SignMark} (h : (Leaf.sign mark).render location = .ok (some w)) :
    ∃ raw, location.component mark.axis = some raw ∧
      w = [if raw.isAtLeastZero then mark.positive else mark.negative] := by
  unfold render at h
  dsimp only at h
  split at h
  · cases h
  · rename_i raw hraw
    cases h
    exact ⟨raw, hraw, rfl⟩

/-! ## Reading it -/

/-- The text of a leaf has the width that its field asks for: a bounded field has no more integer
digits than it reads. -/
def Fits : Leaf → Text → Prop
  | field f, w => f.bounded = true → (Numeral.ofText w).integer.length = f.specifier.integerDigits
  | _, _ => True

/-- The text of a leaf ends where a scan for it ends. -/
def EndsBefore : Leaf → Text → Text → Prop
  | field f, w, behind => f.specifier.EndsBefore f.bounded (Numeral.ofText w) behind
  | _, _, _ => True

theorem from?_append (before rest : Text) :
    (before ++ rest).from? before.length = some rest := by
  unfold Text.from?
  rw [if_neg (by omega), if_neg (by simp), Int.toNat_natCast, List.drop_left]

theorem positive_ne_negative (mark : SignMark) : mark.positive ≠ mark.negative := by
  rcases mark with axis | kind
  · show CodePoint.char '+' ≠ .char '-'
    decide
  · cases kind <;> decide

theorem isDigit_positive (mark : SignMark) : isDigit mark.positive = false := by
  rcases mark with axis | kind
  · rfl
  · cases kind <;> rfl

theorem isDigit_negative (mark : SignMark) : isDigit mark.negative = false := by
  rcases mark with axis | kind
  · rfl
  · cases kind <;> rfl

section Field

variable {f : Field} (h : (Leaf.field f).render location = .ok (some w))
  (hfit : Fits (.field f) w)

include h hfit

theorem scan?_render (he : EndsBefore (.field f) w behind) :
    f.specifier.scan? f.specifier.quantity.isSigned f.bounded (w ++ behind)
      = some (Numeral.ofText w) := by
  obtain ⟨raw, negative, m, -, -, -, hp⟩ := prints_of_render h
  have hsign := sign_ofText_of_render h
  have := Specifier.scan?_spelledWith hp.plain hsign hp.fraction_eq_nil_iff hp.length_fraction_le hfit he
  rwa [hp.spelled] at this

/-- A bounded field whose text does not end where its scan ends reads more than its text. -/
theorem length_lt_scan_render (hb : f.bounded = true) (he : ¬ EndsBefore (.field f) w behind) :
    w.length < (f.specifier.scan f.specifier.quantity.isSigned f.bounded (w ++ behind)).length := by
  obtain ⟨raw, negative, m, -, -, -, hp⟩ := prints_of_render h
  have hsign := sign_ofText_of_render h
  have := Specifier.length_lt_scan hp.plain hsign hp.fraction_eq_nil_iff hp.length_fraction_le hfit hb he
  rwa [hp.spelled, ← Numeral.length_spelledWith _ f.specifier.separator, hp.spelled] at this

end Field

/-- A leaf takes its own text and contributes what that text says. -/
theorem readAt_render {l : Leaf} (h : l.render location = .ok (some w)) (hfit : Fits l w)
    (he : EndsBefore l w behind) :
    l.readAt (before ++ (w ++ behind)) before.length = .ok (w.length, l.meaning w) := by
  cases l with
  | field f =>
    obtain ⟨raw, negative, m, -, -, -, hp⟩ := prints_of_render h
    have hscan := scan?_render h hfit he
    have hlen : (Numeral.ofText w).length = w.length := by
      rw [← Numeral.length_spelledWith _ f.specifier.separator, hp.spelled]
    have hread : f.specifier.readAt f.specifier.quantity.isSigned f.bounded
        (before ++ (w ++ behind)) before.length
          = .ok ((Numeral.ofText w).value, w.length) := by
      unfold Specifier.readAt
      rw [if_neg (by omega), from?_append, Option.bind_some, hscan]
      dsimp only
      rw [hlen]
    unfold readAt
    simp only [hread, bind, Except.bind]
    rfl
  | sign mark =>
    obtain ⟨raw, -, rfl⟩ := render_sign h
    have hne := positive_ne_negative mark
    unfold readAt
    dsimp only
    rw [if_neg (by omega), from?_append, Option.bind_some]
    by_cases hz : raw.isAtLeastZero = true
    · simp [hz, readSign?, meaning]
    · simp [hz, readSign?, meaning, hne.symm]
  | literal t =>
    cases h
    unfold readAt
    dsimp only
    rw [from?_append]
    simp [meaning]

/-- A bounded field that takes just its own text ends where its scan ends. -/
theorem endsBefore_of_readAt {f : Field} {c : Contribution}
    (h : (Leaf.field f).render location = .ok (some w)) (hfit : Fits (.field f) w)
    (hb : f.bounded = true)
    (hr : (Leaf.field f).readAt (before ++ (w ++ behind)) before.length = .ok (w.length, c)) :
    EndsBefore (.field f) w behind := by
  by_contra he
  -- otherwise the scan would have taken more than the text
  have hlong := length_lt_scan_render h hfit hb he
  unfold readAt Specifier.readAt at hr
  dsimp only at hr
  rw [if_neg (by omega), from?_append, Option.bind_some] at hr
  unfold Specifier.scan? at hr
  dsimp only at hr
  split at hr
  · rename_i n hn
    split at hn
    · cases hn
      simp only [bind, Except.bind, pure, Except.pure, Except.ok.injEq, Prod.mk.injEq] at hr
      omega
    · cases hn
  · cases hr

/-- At the end of a text nothing is read but an empty literal. -/
theorem readAt_end {l : Leaf} (hl : l ≠ .literal []) (t : Text) :
    l.readAt t t.length = .error .mismatch := by
  have hend : t.from? t.length = some [] := by simpa using from?_append t []
  unfold readAt
  cases l with
  | field f =>
    dsimp only
    unfold Specifier.readAt
    rw [if_neg (by omega), hend, Option.bind_some, Specifier.scan?_nil]
    rfl
  | sign mark =>
    dsimp only
    rw [if_neg (by omega), hend]
    rfl
  | literal u =>
    dsimp only
    rw [hend]
    cases u with
    | nil => exact absurd rfl hl
    | cons c u => rfl

end Leaf

end GeoPattern
