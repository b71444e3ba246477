/-
How exactly a location is read back. A pattern recovers an axis if it writes it once: as a signed
number, as meters or degrees with a fraction, or as degrees, minutes and seconds, unsigned ones with
a sign mark. What is read back of such an axis is its component, rounded once to the fraction digits
of the finest field.
Main statements: `readBack_near`, `fitting_of_roomy`.
-/
import GeoPattern.Proofs.Layout.Angle
import GeoPattern.Proofs.Layout.Delimited
import GeoPattern.Proofs.Layout.Presence

namespace GeoPattern

open Node Event

/-! ## The number that is read back -/

/-- How many of a unit make one of what a component is counted in: degrees or meters. -/
def MeasureUnit.perBase : MeasureUnit → ℕ
  | degree | meter => 1
  | minute => 60
  | second => 3600

namespace Event

/-- The event shows a minus for an axis: the mark for below zero, or a minus sign. -/
def minus (axis : Axis) : Event → Bool
  | leaf (.sign mark) w => mark.axis == axis && w != [mark.positive]
  | leaf (.field f) w => f.specifier.quantity.axis == axis && (Numeral.ofText w).isNegative
  | _ => false

/-- The sum of what is shown for an axis: degrees, minutes and seconds, or meters. -/
def amount (es : List Event) (axis : Axis) : ℚ :=
  (shown es axis .degree).getD 0 + (shown es axis .minute).getD 0 / 60 +
    (shown es axis .second).getD 0 / 3600 + (shown es axis .meter).getD 0

/-- The signed sum of what is shown for an axis. -/
def readBack (es : List Event) (axis : Axis) : ℚ := signed (es.any (minus axis)) (amount es axis)

end Event

/-! ## Patterns that recover an axis -/

/-- The axis of a sign mark. -/
def Leaf.markAxis? : Leaf → Option Axis
  | .sign mark => some mark.axis
  | _ => none

/-- The fields of an axis, among leaves. -/
def fieldsOf (leaves : List Leaf) (axis : Axis) : List Specifier :=
  (Leaf.specifiers leaves).filter (·.quantity.axis == axis)

/-- An axis has a sign mark, and unsigned fields only. -/
def Marked (leaves : List Leaf) (axis : Axis) : Prop :=
  (∃ l ∈ leaves, l.markAxis? = some axis) ∧
    ∀ s ∈ fieldsOf leaves axis, s.quantity.isSigned = false

/-- An axis has a signed field and no sign mark. -/
def SignedOnly (leaves : List Leaf) (axis : Axis) : Prop :=
  (∀ l ∈ leaves, l.markAxis? ≠ some axis) ∧
    ∀ s ∈ fieldsOf leaves axis, s.quantity.isSigned = true

/-- A specifier writes the finest unit of an axis. -/
structure IsFinest (leaves : List Leaf) (axis : Axis) (s : Specifier) : Prop where
  mem : s ∈ fieldsOf leaves axis
  le : ∀ t ∈ fieldsOf leaves axis, t.quantity.unit.perDegree ≤ s.quantity.unit.perDegree

/-- An axis can be read back: from degrees, minutes and seconds with up to fourteen fraction digits
and a sign mark, or from a single field. -/
def Recoverable (leaves : List Leaf) (axis : Axis) : Prop :=
  (Marked leaves axis ∧ (∃ s ∈ fieldsOf leaves axis, s.quantity.unit = .minute) ∧
      ∀ s ∈ fieldsOf leaves axis, s.fractionDigits ≤ 14) ∨
    ((fieldsOf leaves axis).length = 1 ∧ (SignedOnly leaves axis ∨ Marked leaves axis ∧
      ∀ s ∈ fieldsOf leaves axis, s.quantity.unit = .degree → s.fractionDigits ≠ 0))

instance (leaves : List Leaf) (axis : Axis) : Decidable (Marked leaves axis) :=
  inferInstanceAs (Decidable (_ ∧ _))

instance (leaves : List Leaf) (axis : Axis) : Decidable (SignedOnly leaves axis) :=
  inferInstanceAs (Decidable (_ ∧ _))

instance (leaves : List Leaf) (axis : Axis) : Decidable (Recoverable leaves axis) :=
  inferInstanceAs (Decidable (_ ∨ _))

theorem mem_fieldsOf {leaves : List Leaf} {axis : Axis} {s : Specifier} :
    s ∈ fieldsOf leaves axis ↔ s ∈ Leaf.specifiers leaves ∧ s.quantity.axis = axis := by
  simp [fieldsOf]

section Axis

variable {pattern : Text} {body : List Node} {location : Location} {es : List Event} {axis : Axis}
  {negative : Bool} {m : Magnitude} {minutes : Specifier}

/-- Where the leaves of an axis stand together, a component that is present is shown. -/
theorem shows_of_together (hw : Writes location body es) (ht : togetherAll axis body = true)
    (hx : (location.component axis).isSome) : Shows body es axis := by
  intro s hs ha
  obtain ⟨f, hf, rfl⟩ := exists_field_of_mem hs
  obtain ⟨w, he⟩ := exists_event_of_together hw ht hx hf (by simp [Leaf.axis?, ha])
  exact List.findSome?_isSome_iff.2 ⟨_, he, by simp [number?, ha]⟩

/-- A component that is present, and is named by a field, is read. -/
theorem isSome_component_of_mem (hw : Writes location body es) (ht : togetherAll axis body = true)
    (hx : (location.component axis).isSome = true) {s : Specifier}
    (hs : s ∈ fieldsOf (leavesOf body) axis) :
    ((draftOf es).build.component axis).isSome = true := by
  obtain ⟨hmem, ha⟩ := mem_fieldsOf.1 hs
  obtain ⟨f, hf, rfl⟩ := exists_field_of_mem hmem
  obtain ⟨w, he⟩ := exists_event_of_together hw ht hx hf (by simp [Leaf.axis?, ha])
  exact (isSome_component_draftOf es axis).2 ⟨f, w, he, ha⟩

/-- Meters are not written with minutes. -/
theorem unit_ne_meter_of_minute (hm : minutes ∈ fieldsOf (leavesOf body) axis)
    (hu : minutes.quantity.unit = .minute) {q : Quantity} (hq : q.axis = axis) :
    q.unit ≠ .meter := by
  intro hmeter
  rw [Quantity.unit_eq_meter ((mem_fieldsOf.1 hm).2.trans hq.symm) hmeter] at hu
  cases hu

theorem ne_elevation_of_minute (hm : minutes ∈ fieldsOf (leavesOf body) axis)
    (hu : minutes.quantity.unit = .minute) : axis ≠ .elevation := by
  intro ha
  rw [Quantity.unit_of_elevation ((mem_fieldsOf.1 hm).2.trans ha)] at hu
  cases hu

/-! ## The sign -/

/-- With a sign mark, the minus is shown for what is below zero. -/
theorem any_minus_of_marked (hw : Writes location body es) (ht : togetherAll axis body = true)
    (hx : location.component axis = some (.finite negative m))
    (hm : Marked (leavesOf body) axis) :
    es.any (minus axis) = !(Double.finite negative m).isAtLeastZero := by
  obtain ⟨⟨l, hl, hmark⟩, hfields⟩ := hm
  obtain ⟨mark, rfl, rfl⟩ : ∃ mark, l = .sign mark ∧ mark.axis = axis := by
    cases l with
    | sign mark => exact ⟨mark, rfl, Option.some.inj hmark⟩
    | _ => cases hmark
  rw [Bool.eq_iff_iff, List.any_eq_true]
  constructor
  · rintro ⟨e, he, hminus⟩
    -- an unsigned field writes no minus sign, so a mark shows it
    rcases e with ⟨f | other | t, w⟩ | body'
    · obtain ⟨hmem, hr⟩ := hw.mem_leaf he
      simp only [minus, Bool.and_eq_true, beq_iff_eq] at hminus
      have hs := hfields _ (mem_fieldsOf.2 ⟨mem_specifiers hmem, hminus.1⟩)
      rw [Numeral.isNegative, Leaf.sign_ofText_of_render hr hs] at hminus
      exact absurd hminus.2 (by simp)
    · obtain ⟨raw, hraw, rfl⟩ := Leaf.render_sign (hw.mem_leaf he).2
      simp only [minus, Bool.and_eq_true, beq_iff_eq, bne_iff_ne, ne_eq] at hminus
      rw [hminus.1, hx] at hraw
      obtain rfl := Option.some.inj hraw
      by_contra hz
      exact hminus.2 (by rw [if_pos (by simpa using hz)])
    · cases hminus
    · cases hminus
  · intro hz
    obtain ⟨w, he⟩ := exists_event_of_together hw ht (by rw [hx]; rfl) hl rfl
    obtain ⟨raw, hraw, rfl⟩ := Leaf.render_sign (hw.mem_leaf he).2
    rw [hx] at hraw
    obtain rfl := Option.some.inj hraw
    refine ⟨_, he, ?_⟩
    rw [Bool.not_eq_true'] at hz
    simp [minus, hz, (Leaf.positive_ne_negative mark).symm]

/-- The mark shows the sign of the component, unless that is zero. -/
theorem any_minus_eq_or (hw : Writes location body es) (ht : togetherAll axis body = true)
    (hx : location.component axis = some (.finite negative m))
    (hm : Marked (leavesOf body) axis) : es.any (minus axis) = negative ∨ m.toRat = 0 := by
  rw [any_minus_of_marked hw ht hx hm, Double.isAtLeastZero]
  rcases hu : m.units with - | n
  · exact .inr (by rw [Magnitude.toRat, hu, Nat.cast_zero, zero_div])
  · exact .inl (by simp)

/-! ## Degrees, minutes and seconds -/

theorem isFinest_finestOf
    (hm : fieldOf? (Leaf.specifiers (leavesOf body)) axis .minute = some minutes) :
    IsFinest (leavesOf body) axis (finestOf (Leaf.specifiers (leavesOf body)) axis minutes) := by
  obtain ⟨hmem, ha, hmu⟩ := fieldOf?_eq_some hm
  rcases unit_finestOf hm with ⟨hu, hf⟩ | ⟨hu, hs⟩
  · rw [hf]
    refine ⟨mem_fieldsOf.2 ⟨hmem, ha⟩, fun t ht => ?_⟩
    obtain ⟨htm, hta⟩ := mem_fieldsOf.1 ht
    rw [hmu]
    cases htu : t.quantity.unit with
    | degree | minute => decide
    | second =>
      have hnone : fieldOf? (Leaf.specifiers (leavesOf body)) axis .second = none :=
        fieldOf?_second_eq_none hu
      have := List.find?_eq_none.1 hnone t htm
      simp [hta, htu] at this
    | meter =>
      rw [Quantity.unit_eq_meter (ha.trans hta.symm) htu] at hmu
      cases hmu
  · obtain ⟨hsm, hsa, -⟩ := fieldOf?_eq_some hs
    refine ⟨mem_fieldsOf.2 ⟨hsm, hsa⟩, fun t _ => ?_⟩
    rw [hu]
    cases t.quantity.unit <;> decide

/-- What is shown of an angle with minutes adds up to its size, rounded once to its finest field. -/
theorem exists_showsTotal (hc : compile pattern = .ok body) (hw : Writes location body es)
    (hx : location.component axis = some (.finite negative m))
    (ht : togetherAll axis body = true) {k : Specifier} (hk : k ∈ fieldsOf (leavesOf body) axis)
    (hu : k.quantity.unit = .minute)
    (hplaces : ∀ s ∈ fieldsOf (leavesOf body) axis, s.fractionDigits ≤ 14) :
    ∃ s, IsFinest (leavesOf body) axis s ∧
      (s.quantity.unit = .minute ∨ s.quantity.unit = .second) ∧
      ShowsTotal es axis s.quantity.unit
        (toPlaces s.fractionDigits (Angle.measure m s.quantity.unit)) := by
  obtain ⟨hmem, rfl⟩ := mem_fieldsOf.1 hk
  have hm := fieldOf?_eq_of_mem (validate_of_compile hc).1 hmem
  rw [hu] at hm
  have hfinest := isFinest_finestOf hm
  have hshows := shows_of_together hw ht (by rw [hx]; rfl)
  exact ⟨_, hfinest, (unit_finestOf hm).imp And.left And.left,
    (showsTotal_iff_kept hc hw hx hm hshows).2 (kept_of_le (hplaces _ hfinest.mem) _)⟩

/-- Nothing is shown for a unit that no field of the axis writes. -/
theorem shown_eq_none (hw : Writes location body es) {unit : MeasureUnit}
    (h : ∀ s ∈ fieldsOf (leavesOf body) axis, s.quantity.unit ≠ unit) :
    shown es axis unit = none := by
  rcases hs : shown es axis unit with - | x
  · rfl
  · obtain ⟨f, w, he, ha, hu, -⟩ := shown_eq_some hs
    exact absurd hu (h _ (mem_fieldsOf.2 ⟨mem_specifiers (hw.mem_leaf he).1, ha⟩))

/-- Degrees, minutes and seconds are all that is shown of an angle with minutes. -/
theorem amount_of_showsTotal (hw : Writes location body es) {s : Specifier}
    (hs : IsFinest (leavesOf body) axis s)
    (hu : s.quantity.unit = .minute ∨ s.quantity.unit = .second) {total : ℚ}
    (h : ShowsTotal es axis s.quantity.unit total) :
    amount es axis * s.quantity.unit.perBase = total := by
  have hmeter : shown es axis .meter = none := by
    apply shown_eq_none hw
    intro t ht htu
    have := Quantity.unit_eq_meter
      ((mem_fieldsOf.1 hs.mem).2.trans (mem_fieldsOf.1 ht).2.symm) htu
    rcases hu with hu | hu <;> rw [this] at hu <;> cases hu
  obtain ⟨d, k, hd, hk, -, hsum⟩ := h
  rcases hu with hu | hu <;> rw [hu] at hsum ⊢
  · have hsecond : shown es axis .second = none := by
      apply shown_eq_none hw
      intro t ht htu
      have := hs.le t ht
      rw [hu, htu] at this
      exact absurd this (by decide)
    rw [amount, hd, hk, hsecond, hmeter, ← hsum]
    simp only [Option.getD_some, Option.getD_none, MeasureUnit.perBase]
    push_cast
    ring
  · obtain ⟨r, hr, -, hsum⟩ := hsum
    rw [amount, hd, hk, hr, hmeter, ← hsum]
    simp only [Option.getD_some, Option.getD_none, MeasureUnit.perBase]
    push_cast
    ring

/-! ## A single number -/

section Alone

variable {s : Specifier} (hc : compile pattern = .ok body)
  (h : fieldsOf (leavesOf body) axis = [s])

include h

theorem fieldOf?_of_alone {unit : MeasureUnit} (hu : s.quantity.unit ≠ unit) :
    fieldOf? (Leaf.specifiers (leavesOf body)) axis unit = none := by
  apply Option.eq_none_iff_forall_ne_some.2
  intro t ht
  obtain ⟨hmem, ha, htu⟩ := fieldOf?_eq_some ht
  have : t ∈ fieldsOf (leavesOf body) axis := mem_fieldsOf.2 ⟨hmem, ha⟩
  rw [h, List.mem_singleton] at this
  exact hu (this ▸ htu)

theorem mem_of_alone : s ∈ Leaf.specifiers (leavesOf body) ∧ s.quantity.axis = axis :=
  mem_fieldsOf.1 (by rw [h]; exact List.mem_cons_self)

include hc

/-- Minutes and seconds do not stand alone. -/
theorem unit_of_alone : s.quantity.unit = .degree ∨ s.quantity.unit = .meter := by
  obtain ⟨hmem, rfl⟩ := mem_of_alone h
  obtain ⟨hpair, -, -, -⟩ := validate_of_compile hc
  obtain ⟨hmin, hsec⟩ := angleChecked_of_compile hc s.quantity.axis
  have hs := fieldOf?_eq_of_mem hpair hmem
  rcases hu : s.quantity.unit with - | - | - | -
  · exact .inl rfl
  · rw [hu] at hs
    obtain ⟨d, hd, -, -⟩ := hmin s hs
    rw [fieldOf?_of_alone h (by rw [hu]; exact MeasureUnit.noConfusion)] at hd
    cases hd
  · rw [hu] at hs
    obtain ⟨k, hk, -⟩ := hsec s hs
    rw [fieldOf?_of_alone h (by rw [hu]; exact MeasureUnit.noConfusion)] at hk
    cases hk
  · exact .inr rfl

/-- A field that stands alone takes the component as it is: with its sign if it is signed, and
without it otherwise. -/
theorem value_of_alone {f : Field} (hf : .field f ∈ leavesOf body) (hs : f.specifier = s)
    (hwhole : s.quantity.isSigned = false → s.quantity.unit = .degree → s.fractionDigits ≠ 0) :
    f.value (.finite negative m) = .ok (.finite (s.quantity.isSigned && negative) m) := by
  subst hs
  obtain ⟨hmem, ha⟩ := mem_of_alone h
  rcases hsigned : f.specifier.quantity.isSigned with - | -
  · unfold Field.value Field.unsignedValue
    rw [hsigned]
    rcases unit_of_alone hc h with hu | hu
    · have hcounts : f.specifier.Counts axis := ⟨ha, hsigned, by rw [hu]; exact nofun⟩
      -- no other field takes part in the resolution
      have hres : f.resolution = some ⟨.degree, f.specifier.fractionDigits⟩ := by
        rw [resolution_of_compile hc hf, ha, ← hu]
        apply resolutionOf_eq_of_finest hmem hcounts
        intro t ht htc _
        have : t ∈ fieldsOf (leavesOf body) axis := mem_fieldsOf.2 ⟨ht, htc.1⟩
        rwa [h, List.mem_singleton] at this
      simp [hres, hu, hwhole hsigned hu, Double.isFinite, Double.abs]
    · simp [hu, Double.isFinite, Double.abs]
  · unfold Field.value
    rw [hsigned]
    rfl

section Writes

variable (hw : Writes location body es)
  (hx : location.component axis = some (.finite negative m))
  (hwhole : s.quantity.isSigned = false → s.quantity.unit = .degree → s.fractionDigits ≠ 0)

include hw hx hwhole

theorem prints_of_alone {f : Field} {w : Text} (he : .leaf (.field f) w ∈ es)
    (ha : f.specifier.quantity.axis = axis) :
    f.specifier = s ∧ s.Prints (s.quantity.isSigned && negative) m.toRat w := by
  obtain ⟨hf, hr⟩ := hw.mem_leaf he
  have hs : f.specifier ∈ fieldsOf (leavesOf body) axis := mem_fieldsOf.2 ⟨mem_specifiers hf, ha⟩
  rw [h, List.mem_singleton] at hs
  obtain ⟨raw, sign, size, hraw, hv, -, hp⟩ := Leaf.prints_of_render hr
  rw [ha, hx] at hraw
  obtain rfl := Option.some.inj hraw
  rw [value_of_alone hc h hf hs hwhole] at hv
  cases hv
  exact ⟨hs, hs ▸ hp⟩

theorem exists_prints_of_alone (hshows : Shows body es axis) :
    ∃ f w, .leaf (.field f) w ∈ es ∧ f.specifier = s ∧
      shown es axis s.quantity.unit = some (Numeral.ofText w).toRat ∧
        s.Prints (s.quantity.isSigned && negative) m.toRat w := by
  obtain ⟨hmem, ha⟩ := mem_of_alone h
  obtain ⟨x, hshown⟩ := Option.isSome_iff_exists.1 (hshows s hmem ha)
  obtain ⟨f, w, he, hfa, -, rfl⟩ := shown_eq_some hshown
  obtain ⟨hs, hp⟩ := prints_of_alone hc h hw hx hwhole he hfa
  exact ⟨f, w, he, hs, hshown, hp⟩

/-- What is shown is the size of the component, rounded. -/
theorem amount_of_alone (hshows : Shows body es axis) :
    amount es axis = toPlaces s.fractionDigits m.toRat := by
  obtain ⟨f, w, -, -, hshown, hp⟩ := exists_prints_of_alone hc h hw hx hwhole hshows
  have hnone (unit : MeasureUnit) (hu : s.quantity.unit ≠ unit) : shown es axis unit = none :=
    shown_eq_none hw fun t ht => by
      rw [h, List.mem_singleton] at ht
      rwa [ht]
  rw [← hp.toRat, amount]
  rcases unit_of_alone hc h with hu | hu <;> rw [hu] at hshown hnone
  · simp [hshown, hnone .minute nofun, hnone .second nofun, hnone .meter nofun]
  · simp [hshown, hnone .degree nofun, hnone .minute nofun, hnone .second nofun]

/-- A signed field shows the sign of its component, unless nothing is left of it when it is
rounded. -/
theorem any_minus_of_signedOnly (hshows : Shows body es axis)
    (hsigned : SignedOnly (leavesOf body) axis) :
    es.any (minus axis) = negative ∨ toPlaces s.fractionDigits m.toRat = 0 := by
  obtain ⟨hmarks, hfields⟩ := hsigned
  have hs : s.quantity.isSigned = true := hfields s (by rw [h]; exact List.mem_cons_self)
  -- the minus sign is written for what is below zero after rounding
  apply or_iff_not_imp_right.2
  intro hne
  rw [Bool.eq_iff_iff, List.any_eq_true]
  constructor
  · rintro ⟨e, he, hminus⟩
    rcases e with ⟨f | mark | t, w⟩ | body'
    · simp only [minus, Bool.and_eq_true, beq_iff_eq] at hminus
      obtain ⟨-, hp⟩ := prints_of_alone hc h hw hx hwhole he hminus.1
      by_contra hneg
      rw [Numeral.isNegative, hp.sign, if_neg (by simp [hneg])] at hminus
      exact absurd hminus.2 (by simp)
    · simp only [minus, Bool.and_eq_true, beq_iff_eq] at hminus
      exact absurd (congrArg some hminus.1) (hmarks _ (hw.mem_leaf he).1)
    · cases hminus
    · cases hminus
  · intro hneg
    obtain ⟨f, w, he, rfl, -, hp⟩ := exists_prints_of_alone hc h hw hx hwhole hshows
    refine ⟨_, he, ?_⟩
    have hsign := hp.sign
    rw [if_pos ⟨by simp [hs, hneg], hne⟩] at hsign
    simp [minus, Numeral.isNegative, hsign, (mem_of_alone h).2]

end Writes

end Alone

/-! ## Either way -/

/-- What is read back of a component is at most half a unit of the last fraction digit of its finest
field away from it. -/
theorem readBack_near (hc : compile pattern = .ok body) (hw : Writes location body es)
    (hx : location.component axis = some (.finite negative m))
    (ht : togetherAll axis body = true) (hr : Recoverable (leavesOf body) axis) :
    ∃ s, IsFinest (leavesOf body) axis s ∧
      |readBack es axis * s.quantity.unit.perBase
        - signed negative (Angle.measure m s.quantity.unit)| ≤ 1 / 2 / 10 ^ s.fractionDigits := by
  rcases hr with ⟨hmarked, ⟨k, hk, hu⟩, hplaces⟩ | ⟨hlen, hsign⟩
  · obtain ⟨s, hs, hunit, htotal⟩ := exists_showsTotal hc hw hx ht hk hu hplaces
    refine ⟨s, hs, ?_⟩
    rw [readBack, signed_mul, amount_of_showsTotal hw hs hunit htotal]
    apply abs_signed_sub_le (abs_toPlaces_sub_le _ _)
    exact (any_minus_eq_or hw ht hx hmarked).imp_right fun h =>
      .inr ((Angle.measure_eq_zero_iff _ _).2 h)
  · have hshows : Shows body es axis := shows_of_together hw ht (by rw [hx]; rfl)
    obtain ⟨s, hs⟩ := List.length_eq_one_iff.1 hlen
    -- a single field writes degrees or meters, which are not split
    have hunit := unit_of_alone hc hs
    have hmem : s ∈ fieldsOf (leavesOf body) axis := by rw [hs]; exact List.mem_cons_self
    refine ⟨s, ⟨hmem, fun t ht => ?_⟩, ?_⟩
    · rw [hs, List.mem_singleton] at ht
      rw [ht]
    have hwhole : s.quantity.isSigned = false → s.quantity.unit = .degree →
        s.fractionDigits ≠ 0 := by
      intro hunsigned
      rcases hsign with h | ⟨-, h⟩
      · rw [h.2 s hmem] at hunsigned
        cases hunsigned
      · exact h s hmem
    have hone : (s.quantity.unit.perBase : ℚ) = 1 ∧ Angle.measure m s.quantity.unit = m.toRat := by
      rcases hunit with h | h <;> rw [h] <;> exact ⟨Nat.cast_one, rfl⟩
    rw [hone.1, hone.2, mul_one, readBack, amount_of_alone hc hs hw hx hwhole hshows]
    apply abs_signed_sub_le (abs_toPlaces_sub_le _ _)
    rcases hsign with h | ⟨h, -⟩
    · exact (any_minus_of_signedOnly hc hs hw hx hwhole hshows h).imp_right .inl
    · exact (any_minus_eq_or hw ht hx h).imp_right .inr

end Axis

/-! ## Room for the digits -/

/-- The components are finite, with up to 99 degrees of latitude and up to 999 of longitude. -/
structure Location.InRange (location : Location) : Prop where
  finite {axis : Axis} {x : Double} : location.component axis = some x → x.isFinite = true
  latitude {negative : Bool} {m : Magnitude} :
    location.latitude = some (.finite negative m) → m.toRat ≤ 99
  longitude {negative : Bool} {m : Magnitude} :
    location.longitude = some (.finite negative m) → m.toRat ≤ 999

/-- How many digits whole degrees have, up to 99 of latitude and up to 999 of longitude. -/
def Axis.degreeDigits : Axis → ℕ
  | latitude => 2
  | longitude => 3
  | elevation => 0

/-- How many digits the whole part of a quantity has, if it is a part of an angle with minutes. -/
def Quantity.partDigits (q : Quantity) : ℕ :=
  match q.unit with
  | .degree => q.axis.degreeDigits
  | _ => 2

/-- A bounded field has room for its part of an angle, which is written with minutes. -/
def Leaf.Roomy (leaves : List Leaf) : Leaf → Prop
  | .field f => f.bounded = true →
    f.specifier.quantity.partDigits ≤ f.specifier.integerDigits ∧
      (∃ s ∈ fieldsOf leaves f.specifier.quantity.axis, s.quantity.unit = .minute) ∧
        ∀ s ∈ fieldsOf leaves f.specifier.quantity.axis, s.fractionDigits ≤ 14
  | _ => True

instance (leaves : List Leaf) : (l : Leaf) → Decidable (l.Roomy leaves)
  | .field _ => inferInstanceAs (Decidable (_ → _ ∧ _ ∧ _))
  | .sign _ | .literal _ => inferInstanceAs (Decidable True)

theorem Location.InRange.exists_finite {location : Location} (h : location.InRange) {axis : Axis}
    {x : Double} (hx : location.component axis = some x) :
    ∃ negative m, x = .finite negative m ∧
      (axis ≠ .elevation → m.toRat + 1 ≤ 10 ^ axis.degreeDigits) := by
  obtain ⟨negative, m, rfl⟩ := Double.exists_finite (h.finite hx)
  refine ⟨negative, m, rfl, fun ha => ?_⟩
  cases axis with
  | latitude =>
    have := h.latitude hx
    norm_num [Axis.degreeDigits]
    linarith
  | longitude =>
    have := h.longitude hx
    norm_num [Axis.degreeDigits]
    linarith
  | elevation => exact absurd rfl ha

/-- The size of an angle stays below the next whole degree when it is rounded. -/
theorem toPlaces_measure_lt {m : Magnitude} {unit : MeasureUnit} {n : ℕ}
    (hu : unit = .minute ∨ unit = .second) (hn : n ≤ 3) (hm : m.toRat + 1 ≤ 10 ^ n)
    (places : ℕ) : toPlaces places (Angle.measure m unit) < 10 ^ n * unit.perDegree := by
  have hper : (60 : ℚ) ≤ unit.perDegree ∧ (unit.perDegree : ℚ) ≤ 3600 := by
    rcases hu with rfl | rfl <;> norm_num [MeasureUnit.perDegree]
  have hpow : (10 : ℚ) ^ n ≤ 10 ^ 3 := pow_le_pow_right₀ (by norm_num) hn
  have hsize := mul_le_mul_of_nonneg_right hm (le_trans (by norm_num) hper.1)
  have hsmall : (10 : ℚ) ^ n * unit.perDegree ≤ 10 ^ 3 * 3600 :=
    mul_le_mul hpow hper.2 (Nat.cast_nonneg _) (by norm_num)
  have := Angle.toPlaces_measure_le hu (by linarith) places
  linarith

namespace Event

theorem shown_nonneg {es : List Event} {axis : Axis} {unit : MeasureUnit} {x : ℚ}
    (h : shown es axis unit = some x) : 0 ≤ x := by
  obtain ⟨f, w, -, -, -, rfl⟩ := shown_eq_some h
  exact Decimal.toRat_nonneg _

end Event

/-- The degrees that are shown make no more than the total. -/
theorem ShowsTotal.degrees_le {es : List Event} {axis : Axis} {finest : MeasureUnit} {total x : ℚ}
    (h : ShowsTotal es axis finest total) (hu : finest = .minute ∨ finest = .second)
    (hx : shown es axis .degree = some x) : x * finest.perDegree ≤ total := by
  obtain ⟨d, k, hd, hk, -, hsum⟩ := h
  rw [hx] at hd
  cases hd
  have hk0 := shown_nonneg hk
  rcases hu with rfl | rfl
  · simp only [MeasureUnit.perDegree] at hsum ⊢
    push_cast
    linarith
  · obtain ⟨r, hr, -, hsum⟩ := hsum
    have hr0 := shown_nonneg hr
    simp only [MeasureUnit.perDegree]
    push_cast
    linarith

section Fitting

variable {pattern : Text} {body : List Node} {location : Location} {es : List Event}

/-- A part of an angle with minutes has no more digits in front of its separator than its quantity
calls for. -/
theorem toRat_lt_of_minutes (hc : compile pattern = .ok body) (hw : Writes location body es)
    (hin : location.InRange) {f : Field} {w : Text} (he : .leaf (.field f) w ∈ es)
    (ht : togetherAll f.specifier.quantity.axis body = true) {k : Specifier}
    (hk : k ∈ fieldsOf (leavesOf body) f.specifier.quantity.axis) (hku : k.quantity.unit = .minute)
    (hplaces : ∀ s ∈ fieldsOf (leavesOf body) f.specifier.quantity.axis, s.fractionDigits ≤ 14) :
    (Numeral.ofText w).toRat < 10 ^ f.specifier.quantity.partDigits := by
  obtain ⟨hf, hr⟩ := hw.mem_leaf he
  obtain ⟨raw, _, _, hraw, -, -, -⟩ := Leaf.prints_of_render hr
  obtain ⟨negative, m, rfl, hsmall⟩ := hin.exists_finite hraw
  obtain ⟨finest, hfinest, hunit, htotal⟩ := exists_showsTotal hc hw hraw ht hk hku hplaces
  have hshown := shown_of_mem hc hw he
  rw [Quantity.partDigits]
  cases hu : f.specifier.quantity.unit with
  | degree =>
    rw [hu] at hshown
    -- the degrees stay below the next power of ten, since the total does
    have hlt := toPlaces_measure_lt hunit (by cases f.specifier.quantity.axis <;> decide)
      (hsmall (ne_elevation_of_minute hk hku)) finest.fractionDigits
    apply lt_of_mul_lt_mul_right (lt_of_le_of_lt (htotal.degrees_le hunit hshown) hlt)
    positivity
  | minute =>
    rw [hu] at hshown
    obtain ⟨-, x, -, hx, hlt, -⟩ := htotal
    rw [hshown] at hx
    cases hx
    exact hlt.trans (by norm_num)
  | second =>
    rw [hu] at hshown
    -- where there are seconds, nothing is finer
    have hle := hfinest.le _ (mem_fieldsOf.2 ⟨mem_specifiers hf, rfl⟩)
    have hsecond : finest.quantity.unit = .second := by
      apply hunit.resolve_left
      intro hminute
      rw [hu, hminute] at hle
      exact absurd hle (by decide)
    rw [hsecond] at htotal
    obtain ⟨-, -, -, -, -, x, hx, hlt, -⟩ := htotal
    rw [hshown] at hx
    cases hx
    exact hlt.trans (by norm_num)
  | meter => exact absurd hu (unit_ne_meter_of_minute hk hku rfl)

/-- What a roomy field writes has no more digits in front of its separator than the field reads. -/
theorem fitting_of_roomy (hc : compile pattern = .ok body) (hw : Writes location body es)
    (hin : location.InRange) (ht : ∀ axis, togetherAll axis body = true)
    (hroomy : ∀ l ∈ leavesOf body, l.Roomy (leavesOf body)) : Fitting es := by
  rintro (f | mark | t) w he
  case sign | literal => trivial
  intro hb
  obtain ⟨hf, hr⟩ := hw.mem_leaf he
  obtain ⟨hdigits, ⟨k, hk, hku⟩, hplaces⟩ := hroomy _ hf hb
  obtain ⟨_, _, _, -, -, -, hp⟩ := Leaf.prints_of_render hr
  apply hp.length_integer
  rw [← hp.toRat]
  exact lt_of_lt_of_le (toRat_lt_of_minutes hc hw hin he (ht _) hk hku hplaces)
    (pow_le_pow_right₀ (by norm_num) hdigits)

end Fitting

end GeoPattern
