/-
What the check of a tree secures: no unit of an axis is written twice, no axis has two signs, and
minutes and seconds stand below whole unsigned degrees and whole minutes.
-/
import GeoPattern.Pattern.Compile

namespace GeoPattern

theorem sharesUnit_iff {a b : Specifier} : a.sharesUnit b = true ↔
    a.quantity.axis = b.quantity.axis ∧ a.quantity.unit = b.quantity.unit := by
  simp [Specifier.sharesUnit]

theorem firstRepeated?_eq_none_iff {seen specifiers : List Specifier} :
    firstRepeated? seen specifiers = none ↔
      (∀ s ∈ specifiers, ∀ earlier ∈ seen, s.sharesUnit earlier = false) ∧
        specifiers.Pairwise fun a b => b.sharesUnit a = false := by
  induction specifiers generalizing seen with
  | nil => simp [firstRepeated?]
  | cons s rest ih =>
    rw [firstRepeated?]
    rcases hf : seen.find? s.sharesUnit with - | earlier
    · have hs := List.find?_eq_none.1 hf
      simp only [Bool.not_eq_true] at hs
      simp only
      rw [ih, List.pairwise_cons]
      constructor
      · rintro ⟨h, hp⟩
        refine ⟨fun s' hs' e he => ?_, fun s' hs' => h s' hs' s (by simp), hp⟩
        rcases List.mem_cons.1 hs' with rfl | hs'
        · exact hs e he
        · exact h s' hs' e (by simp [he])
      · rintro ⟨h, hr, hp⟩
        refine ⟨fun s' hs' e he => ?_, hp⟩
        rcases List.mem_append.1 he with he | he
        · exact h s' (by simp [hs']) e he
        · rw [List.mem_singleton.1 he]
          exact hr s' hs'
    · simp only [reduceCtorEq, false_iff, not_and]
      intro h
      have := h s (by simp) earlier (List.mem_of_find?_eq_some hf)
      rw [List.find?_some hf] at this
      cases this

/-! ## The checks as case distinctions -/

theorem checkAngle_eq (specifiers : List Specifier) (axis : Axis) :
    checkAngle specifiers axis =
      match fieldOf? specifiers axis .minute with
      | none =>
        match fieldOf? specifiers axis .second with
        | none => .ok ()
        | some seconds => .error (.secondsWithoutMinutes seconds)
      | some minutes =>
        match fieldOf? specifiers axis .degree with
        | none => .error (.minutesWithoutDegrees minutes)
        | some degrees =>
          if degrees.quantity.isSigned then .error (.minutesAfterSignedDegrees degrees)
          else if degrees.fractionDigits ≠ 0 then .error (.minutesAfterFractionalDegrees degrees)
          else
            match fieldOf? specifiers axis .second with
            | none => .ok ()
            | some _ =>
              if minutes.fractionDigits ≠ 0 then .error (.secondsAfterFractionalMinutes minutes)
              else .ok () := by
  unfold checkAngle
  rcases fieldOf? specifiers axis .minute with - | m
  · rfl
  rcases fieldOf? specifiers axis .degree with - | d
  · rfl
  dsimp only
  split
  · rfl
  · split <;> rfl

theorem validate_eq (leaves : List Leaf) :
    validate leaves =
      match firstRepeated? [] (Leaf.specifiers leaves) with
      | some (first, second) => .error (.repeated first second)
      | none =>
        match (leaves.filterMap Leaf.signAxis?).find?
            (fun axis => decide (1 < (leaves.filterMap Leaf.signAxis?).count axis)) with
        | some axis => .error (.severalSigns axis)
        | none =>
          match checkAngle (Leaf.specifiers leaves) .latitude with
          | .error e => .error e
          | .ok _ => checkAngle (Leaf.specifiers leaves) .longitude := by
  unfold validate
  dsimp only
  rcases firstRepeated? [] (Leaf.specifiers leaves) with - | ⟨first, second⟩
  · rcases (leaves.filterMap Leaf.signAxis?).find? (fun axis =>
      decide (1 < (leaves.filterMap Leaf.signAxis?).count axis)) with - | axis
    · rcases checkAngle (Leaf.specifiers leaves) .latitude with e | u <;> rfl
    · rfl
  · rfl

/-! ## What passes -/

/-- An angle passes if its minutes stand below whole unsigned degrees and its seconds below whole
minutes. -/
structure AngleChecked (specifiers : List Specifier) (axis : Axis) : Prop where
  minutes : ∀ m, fieldOf? specifiers axis .minute = some m → ∃ d,
    fieldOf? specifiers axis .degree = some d ∧ d.quantity.isSigned = false ∧ d.fractionDigits = 0
  seconds : ∀ s, fieldOf? specifiers axis .second = some s → ∃ m,
    fieldOf? specifiers axis .minute = some m ∧ m.fractionDigits = 0

theorem checkAngle_eq_ok_iff {specifiers : List Specifier} {axis : Axis} :
    checkAngle specifiers axis = .ok () ↔ AngleChecked specifiers axis := by
  rw [checkAngle_eq]
  constructor
  · intro h
    rcases hm : fieldOf? specifiers axis .minute with - | m <;> rw [hm] at h
    · rcases hs : fieldOf? specifiers axis .second with - | s <;> rw [hs] at h
      · exact ⟨by simp [hm], by simp [hs]⟩
      · cases h
    · rcases hd : fieldOf? specifiers axis .degree with - | d <;> rw [hd] at h
      · cases h
      dsimp only at h
      have hd' : d.quantity.isSigned = false ∧ d.fractionDigits = 0 := by
        by_cases h1 : d.quantity.isSigned = true
        · rw [if_pos h1] at h; cases h
        rw [if_neg h1] at h
        by_cases h2 : d.fractionDigits = 0
        · exact ⟨by simpa using h1, h2⟩
        · rw [if_pos h2] at h; cases h
      rw [if_neg (by simp [hd'.1]), if_neg (by simp [hd'.2])] at h
      have hmin : ∀ m, fieldOf? specifiers axis .minute = some m → ∃ d,
          fieldOf? specifiers axis .degree = some d ∧ d.quantity.isSigned = false ∧
            d.fractionDigits = 0 :=
        fun _ _ => ⟨d, hd, hd'⟩
      rcases hs : fieldOf? specifiers axis .second with - | s <;> rw [hs] at h
      · exact ⟨hmin, by simp [hs]⟩
      by_cases h3 : m.fractionDigits = 0
      · exact ⟨hmin, fun _ _ => ⟨m, hm, h3⟩⟩
      · simp [h3] at h
  · rintro ⟨hmin, hsec⟩
    rcases hm : fieldOf? specifiers axis .minute with - | m
    · rcases hs : fieldOf? specifiers axis .second with - | s
      · rfl
      · obtain ⟨m, h, -⟩ := hsec s hs
        rw [hm] at h; cases h
    · obtain ⟨d, hd, hu, hz⟩ := hmin m hm
      rcases hs : fieldOf? specifiers axis .second with - | s
      · simp [hd, hu, hz]
      · obtain ⟨m', h, hmz⟩ := hsec s hs
        obtain rfl : m = m' := Option.some.inj (hm.symm.trans h)
        simp [hd, hu, hz, hmz]

/-- A tree is valid if its fields write different units, no axis has two signs, and both angles
pass. -/
theorem validate_eq_ok_iff {leaves : List Leaf} :
    validate leaves = .ok () ↔
      ((Leaf.specifiers leaves).Pairwise fun a b => b.sharesUnit a = false) ∧
      (∀ axis, (leaves.filterMap Leaf.signAxis?).count axis ≤ 1) ∧
      AngleChecked (Leaf.specifiers leaves) .latitude ∧
      AngleChecked (Leaf.specifiers leaves) .longitude := by
  rw [← checkAngle_eq_ok_iff, ← checkAngle_eq_ok_iff, validate_eq]
  have hrep := @firstRepeated?_eq_none_iff [] (Leaf.specifiers leaves)
  simp only [List.not_mem_nil, false_implies, implies_true, true_and] at hrep
  rw [← hrep]
  rcases firstRepeated? [] (Leaf.specifiers leaves) with - | ⟨first, second⟩
  · rcases hf : (leaves.filterMap Leaf.signAxis?).find? (fun axis =>
      decide (1 < (leaves.filterMap Leaf.signAxis?).count axis)) with - | axis
    · have hcount : ∀ axis, (leaves.filterMap Leaf.signAxis?).count axis ≤ 1 := by
        intro axis
        by_cases hm : axis ∈ leaves.filterMap Leaf.signAxis?
        · simpa using List.find?_eq_none.1 hf axis hm
        · rw [List.count_eq_zero_of_not_mem hm]
          omega
      rcases checkAngle (Leaf.specifiers leaves) .latitude with e | u
      · simp
      · exact ⟨fun h => ⟨rfl, hcount, rfl, h⟩, fun h => h.2.2.2⟩
    · have hcount := List.find?_some hf
      simp only [decide_eq_true_eq] at hcount
      constructor
      · intro h; cases h
      · intro h
        have := h.2.1 axis
        omega
  · constructor
    · intro h; cases h
    · rintro ⟨h, -⟩; cases h

end GeoPattern
