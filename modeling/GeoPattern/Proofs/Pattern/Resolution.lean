/-
The resolution of an axis. Every field of a compiled pattern carries the finest unsigned unit that
the pattern writes for its axis, with the fraction digits of the field that writes it; where there
are minutes, the degrees above them are whole and unsigned, and so are the minutes above seconds.
Main statements: `resolution_of_compile`, `finest_of_compile`.
-/
import GeoPattern.Proofs.Pattern.Assemble
import GeoPattern.Proofs.Pattern.Validate
import Mathlib.Data.List.Pairwise
import Mathlib.Data.Nat.Basic
import Mathlib.Tactic.ByContra

namespace GeoPattern

open Node

/-! ## The finest unit -/

/-- The specifier counts for the resolution of an axis. -/
def Specifier.Counts (s : Specifier) (axis : Axis) : Prop :=
  s.quantity.axis = axis ∧ s.quantity.isSigned = false ∧ s.quantity.unit ≠ .meter

/-- A resolution that is refined is the one before or that of the specifier, and not coarser than
either. -/
theorem refine_spec {axis : Axis} {current : Option Resolution} {s : Specifier} :
    (Resolution.refine axis current s = current ∨ s.Counts axis ∧
      Resolution.refine axis current s = some ⟨s.quantity.unit, s.fractionDigits⟩) ∧
    (∀ r, current = some r → ∃ r', Resolution.refine axis current s = some r' ∧
      r.unit.perDegree ≤ r'.unit.perDegree) ∧
    (s.Counts axis → ∃ r', Resolution.refine axis current s = some r' ∧
      s.quantity.unit.perDegree ≤ r'.unit.perDegree) := by
  unfold Resolution.refine Specifier.Counts
  split
  · rename_i hc
    unfold Resolution.finer
    cases current with
    | none =>
      exact ⟨.inr ⟨hc, rfl⟩, nofun, fun _ => ⟨_, rfl, le_rfl⟩⟩
    | some r =>
      dsimp only
      split
      · rename_i hlt
        refine ⟨.inr ⟨hc, rfl⟩, fun r' h => ⟨_, rfl, ?_⟩, fun _ => ⟨_, rfl, le_rfl⟩⟩
        cases h
        exact le_of_lt hlt
      · rename_i hge
        exact ⟨.inl rfl, fun r' h => ⟨r', h, le_rfl⟩, fun _ => ⟨r, rfl, not_lt.1 hge⟩⟩
  · rename_i hc
    exact ⟨.inl rfl, fun r h => ⟨r, h, le_rfl⟩, fun h => absurd h hc⟩

theorem resolutionOf_spec {specifiers : List Specifier} {axis : Axis} {current : Option Resolution} :
    (∀ r, specifiers.foldl (Resolution.refine axis) current = some r → current = some r ∨
      ∃ s ∈ specifiers, s.Counts axis ∧ r = ⟨s.quantity.unit, s.fractionDigits⟩) ∧
    (∀ r, current = some r → ∃ r', specifiers.foldl (Resolution.refine axis) current = some r' ∧
      r.unit.perDegree ≤ r'.unit.perDegree) ∧
    (∀ s ∈ specifiers, s.Counts axis → ∃ r',
      specifiers.foldl (Resolution.refine axis) current = some r' ∧
        s.quantity.unit.perDegree ≤ r'.unit.perDegree) := by
  induction specifiers generalizing current with
  | nil => exact ⟨fun r h => .inl h, fun r h => ⟨r, h, le_rfl⟩, by simp⟩
  | cons s rest ih =>
    obtain ⟨hone, hcur, hs⟩ := @refine_spec axis current s
    obtain ⟨hmem, hkeep, hall⟩ := @ih (Resolution.refine axis current s)
    rw [List.foldl_cons]
    refine ⟨fun r h => ?_, fun r h => ?_, fun t ht hc => ?_⟩
    · rcases hmem r h with h | ⟨t, ht, hc, hr⟩
      · rcases hone with he | ⟨hc, he⟩
        · exact .inl (he ▸ h)
        · rw [he] at h
          exact .inr ⟨s, List.mem_cons_self, hc, (Option.some.inj h).symm⟩
      · exact .inr ⟨t, List.mem_cons_of_mem _ ht, hc, hr⟩
    · obtain ⟨r', h', hle⟩ := hcur r h
      obtain ⟨r'', h'', hle'⟩ := hkeep r' h'
      exact ⟨r'', h'', le_trans hle hle'⟩
    · rcases List.mem_cons.1 ht with rfl | ht
      · obtain ⟨r', h', hle⟩ := hs hc
        obtain ⟨r'', h'', hle'⟩ := hkeep r' h'
        exact ⟨r'', h'', le_trans hle hle'⟩
      · exact hall t ht hc

/-- The resolution is that of a field of the axis that counts, and no other one is finer. -/
theorem resolutionOf_eq_of_finest {specifiers : List Specifier} {axis : Axis} {s : Specifier}
    (hs : s ∈ specifiers) (hc : s.Counts axis)
    (hfinest : ∀ t ∈ specifiers, t.Counts axis →
      s.quantity.unit.perDegree ≤ t.quantity.unit.perDegree → t = s) :
    resolutionOf specifiers axis = some ⟨s.quantity.unit, s.fractionDigits⟩ := by
  obtain ⟨hmem, -, hall⟩ := @resolutionOf_spec specifiers axis none
  obtain ⟨r, hr, hle⟩ := hall s hs hc
  rcases hmem r hr with h | ⟨t, ht, htc, rfl⟩
  · cases h
  · rw [hfinest t ht htc hle] at hr
    exact hr

/-! ## The fields of an axis -/

theorem fieldOf?_eq_some {specifiers : List Specifier} {axis : Axis} {unit : MeasureUnit}
    {s : Specifier} (h : fieldOf? specifiers axis unit = some s) :
    s ∈ specifiers ∧ s.quantity.axis = axis ∧ s.quantity.unit = unit := by
  refine ⟨List.mem_of_find?_eq_some h, ?_⟩
  simpa using List.find?_some h

/-- No two fields write the same unit of the same axis. -/
theorem eq_of_sharesUnit {specifiers : List Specifier}
    (h : specifiers.Pairwise fun a b => b.sharesUnit a = false) {s t : Specifier}
    (hs : s ∈ specifiers) (ht : t ∈ specifiers) (ha : s.quantity.axis = t.quantity.axis)
    (hu : s.quantity.unit = t.quantity.unit) : s = t := by
  by_contra hne
  -- either of two different fields comes first
  have hsymm : specifiers.Pairwise fun a b => ¬ (b.sharesUnit a = true ∨ a.sharesUnit b = true) := by
    refine h.imp fun {a b} hab => ?_
    rintro (hb | hb)
    · rw [hab] at hb; cases hb
    · rw [sharesUnit_iff.2 ⟨(sharesUnit_iff.1 hb).1.symm, (sharesUnit_iff.1 hb).2.symm⟩] at hab
      cases hab
  have : Std.Symm fun a b : Specifier => ¬ (b.sharesUnit a = true ∨ a.sharesUnit b = true) :=
    ⟨fun _ _ hab hba => hab hba.symm⟩
  exact hsymm.forall hs ht hne (.inr (sharesUnit_iff.2 ⟨ha, hu⟩))

theorem fieldOf?_eq_of_mem {specifiers : List Specifier}
    (h : specifiers.Pairwise fun a b => b.sharesUnit a = false) {s : Specifier}
    (hs : s ∈ specifiers) : fieldOf? specifiers s.quantity.axis s.quantity.unit = some s := by
  rcases hf : fieldOf? specifiers s.quantity.axis s.quantity.unit with - | t
  · have := List.find?_eq_none.1 hf s hs
    simp at this
  · obtain ⟨ht, ha, hu⟩ := fieldOf?_eq_some hf
    rw [eq_of_sharesUnit h ht hs ha hu]

theorem mem_specifiers {leaves : List Leaf} {f : Field} (h : .field f ∈ leaves) :
    f.specifier ∈ Leaf.specifiers leaves :=
  List.mem_filterMap.2 ⟨_, h, rfl⟩

theorem exists_field_of_mem {leaves : List Leaf} {s : Specifier} (h : s ∈ Leaf.specifiers leaves) :
    ∃ f, .field f ∈ leaves ∧ f.specifier = s := by
  obtain ⟨l, hl, hs⟩ := List.mem_filterMap.1 h
  cases l with
  | field f => exact ⟨f, hl, Option.some.inj hs⟩
  | _ => cases hs

/-- Minutes and seconds are unsigned. -/
theorem Specifier.counts_of_unit {s : Specifier}
    (h : s.quantity.unit = .minute ∨ s.quantity.unit = .second) : s.Counts s.quantity.axis := by
  refine ⟨rfl, ?_, ?_⟩
  · rcases hq : s.quantity <;> simp [hq, Quantity.unit] at h <;> rfl
  · rcases h with h | h <;> rw [h] <;> exact MeasureUnit.noConfusion

/-! ## Compiled patterns -/

section Compile

variable {pattern : Text} {body : List Node}

theorem leaf_mem_leavesFrom {resolution : Axis → Option Resolution} {tokens : List Token}
    {f : Field} (h : .field f ∈ leavesFrom resolution tokens) :
    f.resolution = resolution f.specifier.quantity.axis := by
  induction tokens with
  | nil => cases h
  | cons token rest ih =>
    obtain ⟨symbol, position⟩ := token
    cases symbol with
    | optionalStart => exact ih h
    | optionalEnd => exact ih h
    | sign =>
      unfold leavesFrom at h
      dsimp only at h
      split at h
      · rcases List.mem_cons.1 h with h | h
        · cases h
        · exact ih h
      · exact ih h
    | hemisphere kind =>
      rcases List.mem_cons.1 h with h | h
      · cases h
      · exact ih h
    | field s =>
      rcases List.mem_cons.1 h with h | h
      · cases h; rfl
      · exact ih h
    | literal t =>
      rcases List.mem_cons.1 h with h | h
      · cases h
      · exact ih h

/-- Every field carries the resolution of its axis. -/
theorem resolution_of_compile (h : compile pattern = .ok body) {f : Field}
    (hf : .field f ∈ leavesOf body) :
    f.resolution = resolutionOf (Leaf.specifiers (leavesOf body)) f.specifier.quantity.axis := by
  obtain ⟨tokens, -, ha, -⟩ := compile_eq_ok_iff.1 h
  have hm := symbolsOf_of_assemble ha
  have hl : leavesOf body = leavesFrom (resolutionOf (specifiersOf tokens)) tokens := by
    simpa [OpenGroup.leavesOf, leavesOf] using leavesOf_assemble ha
  rw [specifiers_leavesOf, hm, ← specifiersOf_eq]
  exact leaf_mem_leavesFrom (hl ▸ hf)

theorem validate_of_compile (h : compile pattern = .ok body) :
    ((Leaf.specifiers (leavesOf body)).Pairwise fun a b => b.sharesUnit a = false) ∧
      (∀ axis, ((leavesOf body).filterMap Leaf.signAxis?).count axis ≤ 1) ∧
      AngleChecked (Leaf.specifiers (leavesOf body)) .latitude ∧
      AngleChecked (Leaf.specifiers (leavesOf body)) .longitude := by
  obtain ⟨tokens, -, -, hv⟩ := compile_eq_ok_iff.1 h
  exact validate_eq_ok_iff.1 hv

theorem Quantity.unit_of_elevation {q : Quantity} (h : q.axis = .elevation) : q.unit = .meter := by
  cases q <;> first | rfl | cases h

/-- An axis that is measured in meters has no other unit. -/
theorem Quantity.unit_eq_meter {q r : Quantity} (ha : q.axis = r.axis) (hr : r.unit = .meter) :
    q.unit = .meter := by
  have hr : r.axis = .elevation := by cases r <;> first | rfl | cases hr
  exact Quantity.unit_of_elevation (ha.trans hr)

theorem angleChecked_of_compile (h : compile pattern = .ok body) (axis : Axis) :
    AngleChecked (Leaf.specifiers (leavesOf body)) axis := by
  obtain ⟨-, -, hlat, hlon⟩ := validate_of_compile h
  cases axis with
  | latitude => exact hlat
  | longitude => exact hlon
  | elevation =>
    have hmeter {unit : MeasureUnit} {s : Specifier}
        (hs : fieldOf? (Leaf.specifiers (leavesOf body)) .elevation unit = some s) :
        unit = .meter := by
      obtain ⟨-, ha, rfl⟩ := fieldOf?_eq_some hs
      exact Quantity.unit_of_elevation ha
    exact ⟨fun m hm => MeasureUnit.noConfusion (hmeter hm),
      fun s hs => MeasureUnit.noConfusion (hmeter hs)⟩

/-- The field that writes the finest unit of an axis with minutes: the seconds, if there are any. -/
def finestOf (specifiers : List Specifier) (axis : Axis) (minutes : Specifier) : Specifier :=
  (fieldOf? specifiers axis .second).getD minutes

theorem unit_finestOf {specifiers : List Specifier} {axis : Axis} {minutes : Specifier}
    (hm : fieldOf? specifiers axis .minute = some minutes) :
    (finestOf specifiers axis minutes).quantity.unit = .minute ∧
        finestOf specifiers axis minutes = minutes ∨
      (finestOf specifiers axis minutes).quantity.unit = .second ∧
        fieldOf? specifiers axis .second = some (finestOf specifiers axis minutes) := by
  unfold finestOf
  rcases hs : fieldOf? specifiers axis .second with - | s
  · exact .inl ⟨(fieldOf?_eq_some hm).2.2, rfl⟩
  · exact .inr ⟨(fieldOf?_eq_some hs).2.2, rfl⟩

theorem fieldOf?_second_eq_none {specifiers : List Specifier} {axis : Axis} {minutes : Specifier}
    (hu : (finestOf specifiers axis minutes).quantity.unit = .minute) :
    fieldOf? specifiers axis .second = none := by
  rcases hs : fieldOf? specifiers axis .second with - | s
  · rfl
  · rw [finestOf, hs, Option.getD_some, (fieldOf?_eq_some hs).2.2] at hu
    cases hu

/-- Where there are minutes, the resolution is that of the finest field, and what stands above it
is whole and unsigned. -/
theorem finest_of_compile (h : compile pattern = .ok body) {m : Specifier} {axis : Axis}
    (hm : fieldOf? (Leaf.specifiers (leavesOf body)) axis .minute = some m) :
    let finest := finestOf (Leaf.specifiers (leavesOf body)) axis m
    resolutionOf (Leaf.specifiers (leavesOf body)) axis
        = some ⟨finest.quantity.unit, finest.fractionDigits⟩ ∧
      ∃ d, fieldOf? (Leaf.specifiers (leavesOf body)) axis .degree = some d ∧
        d.quantity.isSigned = false ∧ d.fractionDigits = 0 := by
  obtain ⟨hpair, -, -, -⟩ := validate_of_compile h
  obtain ⟨hmin, hsec⟩ := angleChecked_of_compile h axis
  refine ⟨?_, hmin m hm⟩
  obtain ⟨hmm, hma, hmu⟩ := fieldOf?_eq_some hm
  unfold finestOf
  rcases hs : fieldOf? (Leaf.specifiers (leavesOf body)) axis .second with - | s
  · rw [Option.getD_none]
    apply resolutionOf_eq_of_finest hmm (hma ▸ Specifier.counts_of_unit (.inl hmu))
    rintro t ht ⟨hta, -, htm⟩ hle
    apply eq_of_sharesUnit hpair ht hmm (hta.trans hma.symm)
    -- without seconds the minutes are the finest unit
    have hne : t.quantity.unit ≠ .second := by
      intro hu
      have := fieldOf?_eq_of_mem hpair ht
      rw [hta, hu, hs] at this
      cases this
    rw [hmu] at hle ⊢
    cases hu : t.quantity.unit with
    | degree => rw [hu] at hle; exact absurd hle (by decide)
    | minute => rfl
    | second => exact absurd hu hne
    | meter => exact absurd hu htm
  · rw [Option.getD_some]
    obtain ⟨hsm, hsa, hsu⟩ := fieldOf?_eq_some hs
    apply resolutionOf_eq_of_finest hsm (hsa ▸ Specifier.counts_of_unit (.inr hsu))
    rintro t ht ⟨hta, -, htm⟩ hle
    apply eq_of_sharesUnit hpair ht hsm (hta.trans hsa.symm)
    rw [hsu] at hle ⊢
    cases hu : t.quantity.unit with
    | degree => rw [hu] at hle; exact absurd hle (by decide)
    | minute => rw [hu] at hle; exact absurd hle (by decide)
    | second => rfl
    | meter => exact absurd hu htm

end Compile

end GeoPattern
