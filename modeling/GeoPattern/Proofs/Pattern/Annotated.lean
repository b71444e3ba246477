/-
What a compiled tree says about its fields. The unsigned fields of an angle write its degrees, its
degrees and minutes, or all three units, and each of them, in whatever groups it stands, carries the
unit and the fraction digits of the finest one, which alone may have fraction digits. A field is
bounded exactly if it has more than one integer digit and the leaf behind it, brackets aside, is a
field.
Main statement: `annotated_of_compile`.
-/
import GeoPattern.Proofs.Pattern.Resolution
import Mathlib.Data.List.Nodup

namespace GeoPattern

open Node

/-! ## The unsigned fields of an axis -/

/-- The field, if the leaf is an unsigned one of the axis. -/
def Leaf.part? (axis : Axis) : Leaf → Option Field
  | .field f =>
    if f.specifier.quantity.axis = axis ∧ f.specifier.quantity.isSigned = false then some f
    else none
  | _ => none

/-- The unsigned fields of an axis among leaves, from left to right. -/
def partsOf (leaves : List Leaf) (axis : Axis) : List Field := leaves.filterMap (Leaf.part? axis)

/-- The unit that a field writes. -/
def Field.unit (f : Field) : MeasureUnit := f.specifier.quantity.unit

/-- The units that the unsigned fields of an axis write, from left to right. -/
def unitsOf (leaves : List Leaf) (axis : Axis) : List MeasureUnit :=
  (partsOf leaves axis).map Field.unit

variable {leaves : List Leaf} {axis : Axis} {f g : Field}

theorem Leaf.part?_eq_some {l : Leaf} : l.part? axis = some f ↔
    l = .field f ∧ f.specifier.quantity.axis = axis ∧ f.specifier.quantity.isSigned = false := by
  cases l with
  | field f' =>
    simp only [Leaf.part?, Option.ite_none_right_eq_some, Option.some.injEq, Leaf.field.injEq]
    constructor
    · rintro ⟨h, rfl⟩; exact ⟨rfl, h⟩
    · rintro ⟨rfl, h⟩; exact ⟨h, rfl⟩
  | sign mark => simp [Leaf.part?]
  | literal text => simp [Leaf.part?]

theorem mem_partsOf : f ∈ partsOf leaves axis ↔
    .field f ∈ leaves ∧ f.specifier.quantity.axis = axis ∧
      f.specifier.quantity.isSigned = false := by
  simp only [partsOf, List.mem_filterMap, Leaf.part?_eq_some]
  constructor
  · rintro ⟨l, hl, rfl, h⟩; exact ⟨hl, h⟩
  · rintro ⟨hl, h⟩; exact ⟨_, hl, rfl, h⟩

/-! ## Annotated trees -/

/-- How the fields among the leaves of a tree are annotated. -/
structure Annotated (leaves : List Leaf) : Prop where
  /-- The unsigned fields of an angle write its units from the degrees down, each one once. -/
  units : ∀ axis, axis ≠ .elevation →
    ∃ units ∈ [[], [.degree], [.degree, .minute], [.degree, .minute, .second]],
      (unitsOf leaves axis).Perm units
  /-- One of them is the finest: it alone may have fraction digits, and all carry its resolution. -/
  finest : ∀ axis, axis ≠ .elevation → partsOf leaves axis ≠ [] → ∃ g ∈ partsOf leaves axis,
    ∀ f ∈ partsOf leaves axis, f.unit.perDegree ≤ g.unit.perDegree ∧
      (f.specifier.fractionDigits ≠ 0 → f = g) ∧
      f.resolution = some ⟨g.unit, g.specifier.fractionDigits⟩
  /-- No other field carries a resolution. -/
  unresolved : ∀ f, .field f ∈ leaves →
    f.specifier.quantity.isSigned = true ∨ f.specifier.quantity.axis = .elevation →
      f.resolution = none
  /-- A field is bounded if another field is the next leaf. -/
  bounded : ∀ before f after, leaves = before ++ .field f :: after →
    (f.bounded = true ↔ 1 < f.specifier.integerDigits ∧ ∃ g more, after = .field g :: more)

/-! ## Units -/

section Compile

variable {pattern : Text} {body : List Node}

/-- The unsigned fields are among those that are checked for units that occur twice. -/
theorem nodup_unitsOf (h : compile pattern = .ok body) : (unitsOf (leavesOf body) axis).Nodup := by
  obtain ⟨hpair, -, -, -⟩ := validate_of_compile h
  rw [Leaf.specifiers, List.pairwise_filterMap] at hpair
  rw [unitsOf, List.nodup_iff_pairwise_ne, List.pairwise_map, partsOf, List.pairwise_filterMap]
  refine hpair.imp ?_
  intro a b hab f hf g hg heq
  obtain ⟨rfl, hfa, -⟩ := Leaf.part?_eq_some.1 hf
  obtain ⟨rfl, hga, -⟩ := Leaf.part?_eq_some.1 hg
  have := hab f.specifier rfl g.specifier rfl
  rw [sharesUnit_iff.2 ⟨hga.trans hfa.symm, heq.symm⟩] at this
  cases this

theorem mem_unitsOf {unit : MeasureUnit} : unit ∈ unitsOf leaves axis ↔
    ∃ f ∈ partsOf leaves axis, f.unit = unit := by
  rw [unitsOf, List.mem_map]

/-- The unsigned field that writes a unit is the one that the check finds. -/
theorem mem_unitsOf_of_fieldOf? {unit : MeasureUnit} {s : Specifier}
    (hs : fieldOf? (Leaf.specifiers leaves) axis unit = some s)
    (hu : s.quantity.isSigned = false) :
    ∃ f ∈ partsOf leaves axis, f.unit = unit ∧ f.specifier = s := by
  obtain ⟨hmem, ha, hunit⟩ := fieldOf?_eq_some hs
  obtain ⟨f, hf, rfl⟩ := exists_field_of_mem hmem
  exact ⟨f, mem_partsOf.2 ⟨hf, ha, hu⟩, hunit, rfl⟩

theorem fieldOf?_of_mem_partsOf (h : compile pattern = .ok body)
    (hf : f ∈ partsOf (leavesOf body) axis) :
    fieldOf? (Leaf.specifiers (leavesOf body)) axis f.unit = some f.specifier := by
  obtain ⟨hpair, -, -, -⟩ := validate_of_compile h
  obtain ⟨hmem, rfl, -⟩ := mem_partsOf.1 hf
  exact fieldOf?_eq_of_mem hpair (mem_specifiers hmem)

/-- Minutes stand below whole unsigned degrees. -/
theorem degree_of_minute (h : compile pattern = .ok body)
    (hf : f ∈ partsOf (leavesOf body) axis) (hu : f.unit = .minute) :
    ∃ d ∈ partsOf (leavesOf body) axis, d.unit = .degree ∧ d.specifier.fractionDigits = 0 := by
  have hm := fieldOf?_of_mem_partsOf h hf
  rw [hu] at hm
  obtain ⟨s, hs, hunsigned, hwhole⟩ := (angleChecked_of_compile h axis).minutes _ hm
  obtain ⟨d, hd, hdu, rfl⟩ := mem_unitsOf_of_fieldOf? hs hunsigned
  exact ⟨d, hd, hdu, hwhole⟩

/-- Seconds stand below whole minutes. -/
theorem minute_of_second (h : compile pattern = .ok body)
    (hf : f ∈ partsOf (leavesOf body) axis) (hu : f.unit = .second) :
    ∃ m ∈ partsOf (leavesOf body) axis, m.unit = .minute ∧ m.specifier.fractionDigits = 0 := by
  have hs := fieldOf?_of_mem_partsOf h hf
  rw [hu] at hs
  obtain ⟨s, hm, hwhole⟩ := (angleChecked_of_compile h axis).seconds _ hs
  have hunsigned := (Specifier.counts_of_unit (.inl (fieldOf?_eq_some hm).2.2)).2.1
  obtain ⟨m, hm', hmu, rfl⟩ := mem_unitsOf_of_fieldOf? hm hunsigned
  exact ⟨m, hm', hmu, hwhole⟩

/-- An angle is not measured in meters. -/
theorem unit_ne_meter (ha : axis ≠ .elevation) (hf : f ∈ partsOf leaves axis) :
    f.unit ≠ .meter := by
  obtain ⟨-, rfl, -⟩ := mem_partsOf.1 hf
  intro hu
  unfold Field.unit at hu
  cases hq : f.specifier.quantity <;> rw [hq] at hu ha <;>
    first | exact ha rfl | cases hu

/-- A signed angle is written in degrees. -/
theorem Quantity.unit_of_isSigned {q : Quantity} (hs : q.isSigned = true) (ha : q.axis ≠ .elevation) :
    q.unit = .degree := by
  cases q <;> first | rfl | exact absurd rfl ha | cases hs

/-- The units of an angle, from the degrees down to a unit. -/
def MeasureUnit.downTo : MeasureUnit → List MeasureUnit
  | degree => [.degree]
  | minute => [.degree, .minute]
  | second => [.degree, .minute, .second]
  | meter => []

/-- An angle has all units from the degrees down to that of its finest field. -/
theorem mem_unitsOf_iff (h : compile pattern = .ok body) (ha : axis ≠ .elevation)
    (hg : g ∈ partsOf (leavesOf body) axis)
    (hfinest : ∀ f ∈ partsOf (leavesOf body) axis, f.unit.perDegree ≤ g.unit.perDegree)
    (unit : MeasureUnit) :
    unit ∈ unitsOf (leavesOf body) axis ↔ unit ∈ g.unit.downTo := by
  constructor
  · intro hu
    obtain ⟨f, hf, rfl⟩ := mem_unitsOf.1 hu
    have hle := hfinest f hf
    have hm := unit_ne_meter ha hf
    have hgm := unit_ne_meter ha hg
    revert hle hm hgm
    cases f.unit <;> cases g.unit <;> decide
  · intro hu
    have hdegree : ∀ m ∈ partsOf (leavesOf body) axis, m.unit = .minute →
        .degree ∈ unitsOf (leavesOf body) axis := by
      intro m hm hmu
      obtain ⟨d, hd, hdu, -⟩ := degree_of_minute h hm hmu
      exact mem_unitsOf.2 ⟨d, hd, hdu⟩
    have hself : g.unit ∈ unitsOf (leavesOf body) axis := mem_unitsOf.2 ⟨g, hg, rfl⟩
    cases hgu : g.unit with
    | degree =>
      rw [hgu] at hu hself
      obtain rfl : unit = .degree := by simpa [MeasureUnit.downTo] using hu
      exact hself
    | minute =>
      rw [hgu] at hu hself
      obtain rfl | rfl : unit = .degree ∨ unit = .minute := by simpa [MeasureUnit.downTo] using hu
      · exact hdegree g hg hgu
      · exact hself
    | second =>
      rw [hgu] at hu hself
      obtain ⟨m, hm, hmu, -⟩ := minute_of_second h hg hgu
      obtain rfl | rfl | rfl : unit = .degree ∨ unit = .minute ∨ unit = .second := by
        simpa [MeasureUnit.downTo] using hu
      · exact hdegree m hm hmu
      · exact mem_unitsOf.2 ⟨m, hm, hmu⟩
      · exact hself
    | meter => exact absurd hgu (unit_ne_meter ha hg)

/-- Above the finest field of an angle all fields are whole. -/
theorem eq_of_fractionDigits_ne_zero (h : compile pattern = .ok body) (ha : axis ≠ .elevation)
    (hg : g ∈ partsOf (leavesOf body) axis)
    (hfinest : ∀ f ∈ partsOf (leavesOf body) axis, f.unit.perDegree ≤ g.unit.perDegree)
    (hf : f ∈ partsOf (leavesOf body) axis) (hfrac : f.specifier.fractionDigits ≠ 0) : f = g := by
  -- no unit is written twice, so that a field is known by its unit
  have hnodup : (unitsOf (leavesOf body) axis).Nodup := nodup_unitsOf h
  have hinj := List.inj_on_of_nodup_map hnodup
  have hwhole : ∀ k ∈ partsOf (leavesOf body) axis, k.specifier.fractionDigits = 0 →
      f.unit ≠ k.unit := by
    intro k hk hk0 heq
    rw [hinj hf hk heq] at hfrac
    exact hfrac hk0
  apply hinj hf hg
  have hle := hfinest f hf
  cases hgu : g.unit with
  | degree =>
    rw [hgu] at hle
    cases hfu : f.unit <;> rw [hfu] at hle <;> first | rfl | exact absurd hle (by decide)
  | minute =>
    obtain ⟨d, hd, hdu, hd0⟩ := degree_of_minute h hg hgu
    have := hwhole d hd hd0
    rw [hgu] at hle
    cases hfu : f.unit with
    | degree => exact absurd (hfu.trans hdu.symm) this
    | minute => rfl
    | second => rw [hfu] at hle; exact absurd hle (by decide)
    | meter => exact absurd hfu (unit_ne_meter ha hf)
  | second =>
    obtain ⟨m, hm, hmu, hm0⟩ := minute_of_second h hg hgu
    obtain ⟨d, hd, hdu, hd0⟩ := degree_of_minute h hm hmu
    have hnd := hwhole d hd hd0
    have hnm := hwhole m hm hm0
    cases hfu : f.unit with
    | degree => exact absurd (hfu.trans hdu.symm) hnd
    | minute => exact absurd (hfu.trans hmu.symm) hnm
    | second => rfl
    | meter => exact absurd hfu (unit_ne_meter ha hf)
  | meter => exact absurd hgu (unit_ne_meter ha hg)

/-! ## Resolutions -/

theorem counts_of_mem_partsOf (ha : axis ≠ .elevation) (hf : f ∈ partsOf leaves axis) :
    f.specifier.Counts axis := by
  obtain ⟨-, hfa, hu⟩ := mem_partsOf.1 hf
  exact ⟨hfa, hu, unit_ne_meter ha hf⟩

/-- The resolution of an axis is that of its finest unsigned field, which exists if there is an
unsigned field at all. -/
theorem exists_finest (ha : axis ≠ .elevation) (hf : f ∈ partsOf leaves axis) :
    ∃ g ∈ partsOf leaves axis,
      (∀ k ∈ partsOf leaves axis, k.unit.perDegree ≤ g.unit.perDegree) ∧
      resolutionOf (Leaf.specifiers leaves) axis =
        some ⟨g.unit, g.specifier.fractionDigits⟩ := by
  obtain ⟨hsome, -, hfiner⟩ := @resolutionOf_spec (Leaf.specifiers leaves) axis none
  have hle : ∀ k ∈ partsOf leaves axis, ∃ r,
      resolutionOf (Leaf.specifiers leaves) axis = some r ∧
        k.unit.perDegree ≤ r.unit.perDegree := fun k hk =>
    hfiner k.specifier (mem_specifiers (mem_partsOf.1 hk).1) (counts_of_mem_partsOf ha hk)
  obtain ⟨r, hr, -⟩ := hle f hf
  rcases hsome r hr with hnone | ⟨s, hs, ⟨hsa, hsu, hsm⟩, rfl⟩
  · cases hnone
  obtain ⟨g, hl, rfl⟩ := exists_field_of_mem hs
  refine ⟨g, mem_partsOf.2 ⟨hl, hsa, hsu⟩, fun k hk => ?_, hr⟩
  obtain ⟨r', hr', hkr⟩ := hle k hk
  obtain rfl := Option.some.inj (hr.symm.trans hr')
  exact hkr

/-- Where a signed field is the only one of its angle, or meters are measured, no field counts. -/
theorem resolution_eq_none (h : compile pattern = .ok body) (hf : .field f ∈ leavesOf body)
    (hs : f.specifier.quantity.isSigned = true ∨ f.specifier.quantity.axis = .elevation) :
    f.resolution = none := by
  rw [resolution_of_compile h hf, Option.eq_none_iff_forall_not_mem]
  intro r hr
  obtain ⟨hsome, -, -⟩ :=
    @resolutionOf_spec (Leaf.specifiers (leavesOf body)) f.specifier.quantity.axis none
  rcases hsome r hr with hnone | ⟨s, hmem, ⟨hsa, hsu, hsm⟩, rfl⟩
  · cases hnone
  rcases hs with hs | hs
  · -- the unsigned fields of the axis begin with the degrees, which the signed field writes
    have ha : s.quantity.axis ≠ .elevation := fun he => hsm (Quantity.unit_of_elevation he)
    obtain ⟨k, hk, -, rfl⟩ :=
      mem_unitsOf_of_fieldOf? (fieldOf?_eq_of_mem (validate_of_compile h).1 hmem) hsu
    obtain ⟨g, hg, hfinest, -⟩ := exists_finest ha hk
    have hdegree : .degree ∈ g.unit.downTo := by
      have := unit_ne_meter ha hg
      revert this
      cases g.unit <;> decide
    obtain ⟨d, hd, hdu⟩ := mem_unitsOf.1 ((mem_unitsOf_iff h ha hg hfinest .degree).2 hdegree)
    obtain ⟨hdm, hda, hdsigned⟩ := mem_partsOf.1 hd
    have hfu := Quantity.unit_of_isSigned hs (hsa ▸ ha)
    have heq := eq_of_sharesUnit (validate_of_compile h).1 (mem_specifiers hdm)
      (mem_specifiers hf) (hda.trans hsa) (hdu.trans hfu.symm)
    rw [heq, hs] at hdsigned
    cases hdsigned
  · exact hsm (Quantity.unit_of_elevation (hsa.trans hs))

/-! ## Bounded fields -/

variable {resolution : Axis → Option Resolution} {opened : List OpenGroup} {done : List Node}
  {tokens : List Token}

/-- To look ahead over brackets is to look at the next leaf. -/
theorem fieldFollows_iff (h : assemble resolution opened done tokens = .ok body) :
    fieldFollows tokens = true ↔ ∃ g more, leavesFrom resolution tokens = .field g :: more := by
  induction tokens generalizing opened done with
  | nil => simp [fieldFollows, leavesFrom]
  | cons token rest ih =>
    obtain ⟨symbol, position⟩ := token
    cases symbol with
    | optionalStart => exact ih h
    | optionalEnd =>
      cases opened with
      | nil => cases h
      | cons g outer => exact ih h
    | sign =>
      obtain ⟨s, p, more, rfl, -⟩ := assemble_sign_eq_ok h
      simp [fieldFollows, leavesFrom, Symbol.isBracket, Symbol.isField]
    | hemisphere kind => simp [fieldFollows, leavesFrom, Symbol.isBracket, Symbol.isField]
    | field s => simp [fieldFollows, leavesFrom, Symbol.isBracket, Symbol.isField]
    | literal text => simp [fieldFollows, leavesFrom, Symbol.isBracket, Symbol.isField]

/-- The invariant of assembling: whatever tokens are left, they make bounded fields of those that
another field follows. -/
theorem bounded_leavesFrom (h : assemble resolution opened done tokens = .ok body)
    {before after : List Leaf} (hl : leavesFrom resolution tokens = before ++ .field f :: after) :
    f.bounded = true ↔ 1 < f.specifier.integerDigits ∧ ∃ g more, after = .field g :: more := by
  induction tokens generalizing opened done before with
  | nil => cases before <;> cases hl
  | cons token rest ih =>
    obtain ⟨symbol, position⟩ := token
    -- a leaf that is no field is not the one that the statement is about
    have htail {l : Leaf} (hne : ∀ f, l ≠ .field f)
        (hl : l :: leavesFrom resolution rest = before ++ .field f :: after) :
        ∃ before', leavesFrom resolution rest = before' ++ .field f :: after := by
      cases before with
      | nil => exact absurd (List.cons.inj hl).1 (hne f)
      | cons l' before' => exact ⟨before', (List.cons.inj hl).2⟩
    cases symbol with
    | optionalStart => exact ih h hl
    | optionalEnd =>
      cases opened with
      | nil => cases h
      | cons g outer => exact ih h hl
    | sign =>
      obtain ⟨s, p, more, rfl, h⟩ := assemble_sign_eq_ok h
      obtain ⟨before', hl⟩ := htail (l := .sign (.plus s.quantity.axis)) nofun hl
      exact ih h hl
    | hemisphere kind =>
      obtain ⟨before', hl⟩ := htail (l := .sign (.hemisphere kind)) nofun hl
      exact ih h hl
    | field s =>
      rw [assemble_field] at h
      cases before with
      | nil =>
        obtain ⟨hf, rfl⟩ := List.cons.inj hl
        obtain rfl := Leaf.field.inj hf
        simp only [Bool.and_eq_true, decide_eq_true_eq, fieldFollows_iff h]
      | cons l before' => exact ih h (List.cons.inj hl).2
    | literal text =>
      obtain ⟨before', hl⟩ := htail (l := .literal text) nofun hl
      exact ih h hl

/-! ## Compiled patterns -/

/-- The annotations of a compiled tree are those that writing and reading rely on. -/
theorem annotated_of_compile (h : compile pattern = .ok body) : Annotated (leavesOf body) where
  units := by
    intro axis ha
    rcases hp : partsOf (leavesOf body) axis with - | ⟨f, rest⟩
    · exact ⟨[], by simp, by rw [unitsOf, hp]; exact .nil⟩
    · obtain ⟨g, hg, hfinest, -⟩ := exists_finest ha (hp ▸ List.mem_cons_self : f ∈ _)
      refine ⟨g.unit.downTo, by cases g.unit <;> decide, ?_⟩
      rw [List.perm_ext_iff_of_nodup (nodup_unitsOf h) (by cases g.unit <;> decide)]
      exact mem_unitsOf_iff h ha hg hfinest
  finest := by
    intro axis ha hne
    obtain ⟨f, hf⟩ := List.exists_mem_of_ne_nil _ hne
    obtain ⟨g, hg, hfinest, hr⟩ := exists_finest ha hf
    refine ⟨g, hg, fun k hk => ⟨hfinest k hk, ?_, ?_⟩⟩
    · exact eq_of_fractionDigits_ne_zero h ha hg hfinest hk
    · obtain ⟨hmem, rfl, -⟩ := mem_partsOf.1 hk
      rw [resolution_of_compile h hmem, hr]
  unresolved := fun _ => resolution_eq_none h
  bounded := by
    intro before f after hl
    obtain ⟨tokens, -, ha, -⟩ := compile_eq_ok_iff.1 h
    have hfrom := leavesOf_assemble ha
    simp only [OpenGroup.leavesOf, leavesOf, List.reverse_nil, List.nil_append] at hfrom
    exact bounded_leavesFrom ha (hfrom ▸ hl)

/-- The three units of a latitude may stand in three nested groups. -/
theorem annotated_nested : ∃ body, compile (Text.lit "DD[MM[SS.S]X]") = .ok body ∧
    unitsOf (leavesOf body) .latitude = [.degree, .minute, .second] ∧
    Annotated (leavesOf body) := by
  obtain ⟨body, h, hunits⟩ : ∃ body, compile (Text.lit "DD[MM[SS.S]X]") = .ok body ∧
      unitsOf (leavesOf body) .latitude = [.degree, .minute, .second] := by
    decide +kernel
  exact ⟨body, h, hunits, annotated_of_compile h⟩

end Compile

end GeoPattern
