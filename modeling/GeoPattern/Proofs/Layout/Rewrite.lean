/-
Writing again what was read. A component that is read back of its text comes out with the same
fraction digits, so its fields are written as before; its sign mark is too, unless the number is
zero: that has no sign that a mark would show.
Main statements: `exists_rewritten_of_minutes`, `exists_rewritten_of_alone`, `Writes.rewrite`.
-/
import GeoPattern.Proofs.Layout.Refusal
import GeoPattern.Proofs.Layout.Reread

namespace GeoPattern

open Node Event

/-! ## Numbers that are written alike -/

/-- Angles that agree in the fraction digits of their finest unit split into the same parts. -/
theorem Angle.split_congr {m m' : Magnitude} {unit : MeasureUnit} {places : ℕ}
    (hu : unit = .minute ∨ unit = .second)
    (h : toPlaces places (measure m' unit) = toPlaces places (measure m unit)) :
    split m' unit places = split m unit places := by
  have htotal : total m' unit places = total m unit places := by
    rw [measure_eq m' hu, measure_eq m hu, ← Decimal.toRat_ofMagnitude, ← Decimal.toRat_ofMagnitude,
      ← Decimal.toRat_times, ← Decimal.toRat_times] at h
    have hcoarse (m : Magnitude) (n : ℕ) : ((Decimal.ofMagnitude m).times n).Coarse :=
      (Decimal.coarse_ofMagnitude m).times n
    rcases hu with rfl | rfl
    · exact Decimal.quantize_congr (hcoarse _ _) (hcoarse _ _) h
    · exact Decimal.quantize_congr (hcoarse _ _) (hcoarse _ _) h
  unfold split
  rw [htotal]

/-! ## Components that are written alike -/

section Component

variable {pattern : Text} {body : List Node} {location other : Location} {es : List Event}
  {axis : Axis} {negative sign : Bool} {m m' : Magnitude} {s : Specifier} {f : Field}

theorem MeasureUnit.eq_of_perDegree {a b : MeasureUnit} (ha : a ≠ .meter) (hb : b ≠ .meter)
    (h : a.perDegree = b.perDegree) : a = b := by
  cases a <;> cases b <;> simp_all [perDegree]

/-- The finest field of an axis with minutes gives the resolution. -/
theorem resolutionOf_of_isFinest (hc : compile pattern = .ok body)
    (hs : IsFinest (leavesOf body) axis s)
    (hu : s.quantity.unit = .minute ∨ s.quantity.unit = .second) :
    resolutionOf (Leaf.specifiers (leavesOf body)) axis
      = some ⟨s.quantity.unit, s.fractionDigits⟩ := by
  obtain ⟨hmem, rfl⟩ := mem_fieldsOf.1 hs.mem
  apply resolutionOf_eq_of_finest hmem (Specifier.counts_of_unit hu)
  rintro t ht ⟨hta, -, htm⟩ hle
  apply eq_of_sharesUnit (validate_of_compile hc).1 ht hmem hta
  -- no unit of angle but the same one is as fine
  apply MeasureUnit.eq_of_perDegree htm
  · rcases hu with hu | hu <;> rw [hu] <;> exact MeasureUnit.noConfusion
  · exact le_antisymm (hs.le t (mem_fieldsOf.2 ⟨ht, hta⟩)) hle

/-- A field of an axis with minutes is written alike if the angle is rounded alike. -/
theorem render_congr_of_minutes (hc : compile pattern = .ok body) (hf : .field f ∈ leavesOf body)
    (hunsigned : f.specifier.quantity.isSigned = false)
    (hs : IsFinest (leavesOf body) f.specifier.quantity.axis s)
    (hu : s.quantity.unit = .minute ∨ s.quantity.unit = .second)
    (hx : location.component f.specifier.quantity.axis = some (.finite negative m))
    (hx' : other.component f.specifier.quantity.axis = some (.finite sign m'))
    (h : toPlaces s.fractionDigits (Angle.measure m' s.quantity.unit)
      = toPlaces s.fractionDigits (Angle.measure m s.quantity.unit)) :
    (Leaf.field f).render other = (Leaf.field f).render location := by
  have hres : f.resolved = ⟨s.quantity.unit, s.fractionDigits⟩ := by
    rw [Field.resolved, resolution_of_compile hc hf, resolutionOf_of_isFinest hc hs hu]
    rfl
  have hmeter : f.specifier.quantity.unit ≠ .meter := by
    intro hm
    have := Quantity.unit_eq_meter (mem_fieldsOf.1 hs.mem).2 hm
    rcases hu with hu | hu <;> rw [this] at hu <;> cases hu
  have hdegree : f.resolved.unit ≠ .degree := by
    rw [hres]
    rcases hu with hu | hu <;> rw [hu] <;> exact MeasureUnit.noConfusion
  have hvalue : f.value (.finite sign m') = f.value (.finite negative m) := by
    rw [Field.value_of_unsigned hunsigned, Field.value_of_unsigned hunsigned,
      Field.unsignedValue_eq, Field.unsignedValue_eq, if_neg hmeter, if_neg hmeter,
      if_neg hdegree, if_neg hdegree]
    unfold Angle.parts
    dsimp only
    rw [hres, Angle.split_congr hu h]
  unfold Leaf.render
  dsimp only
  rw [hx, hx']
  dsimp only
  rw [hvalue]

/-- A field that stands alone is written alike if its number is rounded alike, with the same sign or
to zero. -/
theorem render_congr_of_alone (hc : compile pattern = .ok body)
    (h : fieldsOf (leavesOf body) axis = [s])
    (hwhole : s.quantity.isSigned = false → s.quantity.unit = .degree → s.fractionDigits ≠ 0)
    (hx : location.component axis = some (.finite negative m))
    (hx' : other.component axis = some (.finite sign m'))
    (hm : toPlaces s.fractionDigits m'.toRat = toPlaces s.fractionDigits m.toRat)
    (hsign : s.quantity.isSigned = true → sign = negative ∨ toPlaces s.fractionDigits m.toRat = 0)
    (hf : .field f ∈ leavesOf body) (ha : f.specifier.quantity.axis = axis) :
    (Leaf.field f).render other = (Leaf.field f).render location := by
  have hs : f.specifier ∈ fieldsOf (leavesOf body) axis := mem_fieldsOf.2 ⟨mem_specifiers hf, ha⟩
  rw [h, List.mem_singleton] at hs
  have hrender : s.render (.finite (s.quantity.isSigned && sign) m')
      = s.render (.finite (s.quantity.isSigned && negative) m) := by
    apply Specifier.render_congr hm
    rcases hsigned : s.quantity.isSigned with - | -
    · exact .inl rfl
    · exact hsign hsigned
  unfold Leaf.render
  dsimp only
  rw [ha, hx, hx']
  dsimp only
  rw [value_of_alone hc h hf hs hwhole, value_of_alone hc h hf hs hwhole, hs]
  simp only [bind, Except.bind]
  rw [hrender]

/-- A component is read back as this magnitude with the sign that is shown, and its fields are
written as before. -/
structure Rewritten (location : Location) (body : List Node) (es : List Event) (axis : Axis)
    (m' : Magnitude) : Prop where
  component : (draftOf es).build.component axis = some (.finite (es.any (minus axis)) m')
  zero_iff : m'.toRat = 0 ↔ amount es axis = 0
  fields : ∀ f, .field f ∈ leavesOf body → f.specifier.quantity.axis = axis →
    (Leaf.field f).render (draftOf es).build = (Leaf.field f).render location

/-- An angle with minutes that is read back is rounded to what was shown of it. -/
theorem exists_rewritten_of_minutes (hc : compile pattern = .ok body)
    (hw : Writes location body es) (hin : location.InRange)
    (hx : location.component axis = some (.finite negative m))
    (ht : togetherAll axis body = true) (hmarked : Marked (leavesOf body) axis) {k : Specifier}
    (hk : k ∈ fieldsOf (leavesOf body) axis) (hku : k.quantity.unit = .minute)
    (hplaces : ∀ s ∈ fieldsOf (leavesOf body) axis, s.fractionDigits ≤ 6) :
    ∃ m', Rewritten location body es axis m' := by
  have hplaces14 : ∀ s ∈ fieldsOf (leavesOf body) axis, s.fractionDigits ≤ 14 :=
    fun s hs => (hplaces s hs).trans (by norm_num)
  obtain ⟨m', hx', hdist, hzero⟩ :=
    exists_component_of_minutes hc hw hin hx ht hk hku hplaces14 hmarked
  obtain ⟨s, hs, hunit, htotal⟩ := exists_showsTotal hc hw hx ht hk hku hplaces14
  have hamount := amount_le_of_minutes hc hw hin hx ht hk hku hplaces14
  have hsum : amount es axis * s.quantity.unit.perDegree
      = toPlaces s.fractionDigits (Angle.measure m s.quantity.unit) := by
    rw [← amount_of_showsTotal hw hs hunit htotal]
    rcases hunit with hu | hu <;> rw [hu] <;> rfl
  obtain ⟨n, hn⟩ := exists_toPlaces_mul_eq s.fractionDigits (Angle.measure m s.quantity.unit)
  have hround : toPlaces s.fractionDigits (Angle.measure m' s.quantity.unit)
      = amount es axis * s.quantity.unit.perDegree :=
    toPlaces_measure_of_near hdist hamount hunit (hplaces s hs.mem) (by rw [hsum, hn])
  refine ⟨m', hx', ⟨fun h0 => ?_, hzero⟩, ?_⟩
  · rw [(Angle.measure_eq_zero_iff _ _).2 h0, toPlaces_zero] at hround
    refine (mul_eq_zero.1 hround.symm).resolve_right ?_
    rcases hunit with hu | hu <;> rw [hu] <;> norm_num [MeasureUnit.perDegree]
  · rintro f hf rfl
    exact render_congr_of_minutes hc hf (hmarked.2 _ (mem_fieldsOf.2 ⟨mem_specifiers hf, rfl⟩)) hs
      hunit hx hx' (hround.trans hsum)

/-- A single number that is read back is rounded to what was shown of it. -/
theorem exists_rewritten_of_alone (hc : compile pattern = .ok body) (hw : Writes location body es)
    (hx : location.component axis = some (.finite negative m))
    (ht : togetherAll axis body = true) (h : fieldsOf (leavesOf body) axis = [s])
    (hwhole : s.quantity.isSigned = false → s.quantity.unit = .degree → s.fractionDigits ≠ 0)
    (hsign : SignedOnly (leavesOf body) axis ∨ Marked (leavesOf body) axis) :
    ∃ m', Rewritten location body es axis m' := by
  have hshows : Shows body es axis := shows_of_together hw ht (by rw [hx]; rfl)
  have hamount := amount_of_alone hc h hw hx hwhole hshows
  obtain ⟨m', hx', hm'⟩ := exists_component_of_alone hc h hw hx hwhole hshows hsign
  have hround : toPlaces s.fractionDigits m'.toRat = toPlaces s.fractionDigits m.toRat := by
    rw [hm', hamount, toPlaces_nearestDouble_toPlaces]
  refine ⟨m', hx', ⟨fun h0 => ?_, fun h0 => ?_⟩, fun f hf ha => ?_⟩
  · rw [hamount, ← hround, h0, toPlaces_zero]
  · rw [hm', h0, nearestDouble_zero]
  · apply render_congr_of_alone hc h hwhole hx hx' hround ?_ hf ha
    intro hsigned
    rcases hsign with hsignedOnly | hmarked
    · exact any_minus_of_signedOnly hc h hw hx hwhole hshows hsignedOnly
    · rw [hmarked.2 s (by rw [h]; exact List.mem_cons_self)] at hsigned
      cases hsigned

theorem exists_rewritten (hc : compile pattern = .ok body) (hw : Writes location body es)
    (hin : location.InRange) (hx : location.component axis = some (.finite negative m))
    (ht : togetherAll axis body = true) (hr : Recoverable (leavesOf body) axis)
    (hplaces : ∀ s ∈ fieldsOf (leavesOf body) axis, s.fractionDigits ≤ 6) :
    ∃ m', Rewritten location body es axis m' := by
  rcases hr with ⟨hmarked, ⟨k, hk, hku⟩, -⟩ | ⟨hlen, hsign⟩
  · exact exists_rewritten_of_minutes hc hw hin hx ht hmarked hk hku hplaces
  · obtain ⟨s, hs⟩ := List.length_eq_one_iff.1 hlen
    have hmem : s ∈ fieldsOf (leavesOf body) axis := by rw [hs]; exact List.mem_cons_self
    refine exists_rewritten_of_alone hc hw hx ht hs ?_ (hsign.imp_right And.left)
    intro hunsigned
    rcases hsign with h | ⟨-, h⟩
    · rw [h.2 s hmem] at hunsigned
      cases hunsigned
    · exact h s hmem

end Component

/-! ## Settled signs -/

namespace Event

/-- The text of a leaf once it is read and written again: a mark is positive for zero. -/
def settledText (es : List Event) : Leaf → Text → Text
  | .sign mark, w => if amount es mark.axis = 0 then [mark.positive] else w
  | _, w => w

/-- Changes the texts of leaves. -/
def rewrite (change : Leaf → Text → Text) : Event → Event
  | leaf l w => leaf l (change l w)
  | omitted body => omitted body

/-- The events once they are read and written again. -/
def settled (es : List Event) : List Event := es.map (rewrite (settledText es))

end Event

/-- A mark is written as before for a number that is not zero, and as the positive one for zero. -/
theorem Rewritten.render_sign {location : Location} {body : List Node} {es : List Event}
    {mark : SignMark} {negative : Bool} {m m' : Magnitude}
    (h : Rewritten location body es mark.axis m') (hw : Writes location body es)
    (ht : togetherAll mark.axis body = true)
    (hx : location.component mark.axis = some (.finite negative m))
    (hm : Marked (leavesOf body) mark.axis) : (Leaf.sign mark).render (draftOf es).build =
      ((Leaf.sign mark).render location).map (·.map (settledText es (.sign mark))) := by
  have hunits : m'.units = 0 ↔ amount es mark.axis = 0 := by
    rw [← h.zero_iff, m'.toRat_eq_zero_iff]
  unfold Leaf.render
  dsimp only
  rw [h.component, hx, any_minus_of_marked hw ht hx hm]
  dsimp only
  generalize (Double.finite negative m).isAtLeastZero = positive
  by_cases hzero : amount es mark.axis = 0
  · simp [Except.map, settledText, Double.isAtLeastZero, hzero, hunits.2 hzero]
  · have hne := mt hunits.1 hzero
    simp [Except.map, settledText, Double.isAtLeastZero, hzero, hne]

section Rewrite

variable {location other : Location} {nodes : List Node} {es : List Event}

theorem map_isSome_renderAll_cons (location : Location) (node : Node) (rest : List Node) :
    (renderAll location (node :: rest)).map Option.isSome =
      match (render location node).map Option.isSome with
      | .ok true => (renderAll location rest).map Option.isSome
      | .ok false => .ok false
      | .error e => .error e := by
  rw [renderAll_cons]
  rcases render location node with e | - | t
  · rfl
  · rfl
  · rcases renderAll location rest with e | - | t' <;> rfl

/-- What is present of a tree is told by what is present of its leaves. -/
theorem map_isSome_renderAll_congr (h : ∀ l ∈ leavesOf nodes,
      (l.render other).map Option.isSome = (l.render location).map Option.isSome) :
    (renderAll other nodes).map Option.isSome = (renderAll location nodes).map Option.isSome := by
  have hgroup (location : Location) (body : List Node) :
      (render location (.group body)).map Option.isSome =
        ((renderAll location body).map Option.isSome).map fun _ => true := by
    rw [render_group]
    rcases renderAll location body with e | t <;> rfl
  induction nodes using forest_induction with
  | nil => rfl
  | leaf l rest ih =>
    simp only [leavesOf, leaves, List.mem_append, List.mem_singleton] at h
    rw [map_isSome_renderAll_cons, map_isSome_renderAll_cons, render, render, h l (.inl rfl),
      ih fun l' hl' => h l' (.inr hl')]
  | group body rest ihb ih =>
    simp only [leavesOf, leaves, List.mem_append] at h
    rw [map_isSome_renderAll_cons, map_isSome_renderAll_cons, hgroup, hgroup,
      ihb fun l' hl' => h l' (.inl hl'), ih fun l' hl' => h l' (.inr hl')]
  | sequence body rest ihb ih =>
    simp only [leavesOf, leaves, List.mem_append] at h
    rw [map_isSome_renderAll_cons, map_isSome_renderAll_cons, render, render,
      ihb fun l' hl' => h l' (.inl hl'), ih fun l' hl' => h l' (.inr hl')]

/-- A location whose leaves have other texts, but are present alike, is written with the same
events, up to their texts. -/
theorem Writes.rewrite {change : Leaf → Text → Text} (hw : Writes location nodes es)
    (h : ∀ l ∈ leavesOf nodes, l.render other = (l.render location).map (·.map (change l))) :
    Writes other nodes (es.map (Event.rewrite change)) := by
  induction hw with
  | nil => exact .nil
  | @leaf l w rest es hl _ ih =>
    simp only [leavesOf, leaves, List.mem_append, List.mem_singleton] at h
    refine .leaf ?_ (ih fun l' hl' => h l' (.inr hl'))
    rw [h l (.inl rfl), hl]
    rfl
  | taken _ _ ihb ih =>
    simp only [leavesOf, leaves, List.mem_append] at h
    rw [List.map_append]
    exact .taken (ihb fun l' hl' => h l' (.inl hl')) (ih fun l' hl' => h l' (.inr hl'))
  | @omitted body rest es hb _ ih =>
    simp only [leavesOf, leaves, List.mem_append] at h
    refine .omitted ?_ (ih fun l' hl' => h l' (.inr hl'))
    have hcongr : (renderAll other body).map Option.isSome
        = (renderAll location body).map Option.isSome := by
      apply map_isSome_renderAll_congr
      intro l hl
      rw [h l (.inl hl)]
      rcases l.render location with e | - | t <;> rfl
    rw [hb] at hcongr
    rcases hr : renderAll other body with e | - | t
    · rw [hr] at hcongr
      cases hcongr
    · rfl
    · rw [hr] at hcongr
      cases hcongr
  | sequence _ _ ihb ih =>
    simp only [leavesOf, leaves, List.mem_append] at h
    rw [List.map_append]
    exact .sequence (ihb fun l' hl' => h l' (.inl hl')) (ih fun l' hl' => h l' (.inr hl'))

end Rewrite

end GeoPattern
