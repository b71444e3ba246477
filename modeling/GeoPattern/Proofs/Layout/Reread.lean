/-
What a written text says when it is read. The events of a writing tell what they contribute, so the
location that is read back is the sum of the numbers that are shown, with the sign that is shown. An
angle with minutes is at most sixteen roundings off that sum; a single number is the double nearest
to it.
Main statements: `meaning_of_writes`, `exists_component_of_minutes`, `exists_component_of_alone`.
-/
import GeoPattern.Proofs.Layout.Meaning
import GeoPattern.Proofs.Layout.RoundTrip
import GeoPattern.Proofs.Number.Near

namespace GeoPattern

open Node Event

/-! ## Events as readings -/

/-- A leaf that was written, with what its text says. -/
def Event.reading? : Event → Option Reading
  | .leaf l w => some ⟨l, w, l.meaning w⟩
  | .omitted _ => none

/-- The leaves that were written, with what their texts say. -/
def readingsOf (es : List Event) : List Reading := es.filterMap Event.reading?

/-- The readings of the leaves of an axis. -/
def readingsOn (es : List Event) (axis : Axis) : List Reading :=
  (readingsOf es).filter (·.isOn axis)

theorem mem_readingsOf {es : List Event} {r : Reading} :
    r ∈ readingsOf es ↔ ∃ l w, .leaf l w ∈ es ∧ r = ⟨l, w, l.meaning w⟩ := by
  rw [readingsOf, List.mem_filterMap]
  constructor
  · rintro ⟨e, he, hr⟩
    cases e with
    | leaf l w => exact ⟨l, w, he, (Option.some.inj hr).symm⟩
    | omitted body => cases hr
  · rintro ⟨l, w, he, rfl⟩
    exact ⟨_, he, rfl⟩

theorem mem_readingsOn {es : List Event} {axis : Axis} {r : Reading} : r ∈ readingsOn es axis ↔
    ∃ l w, .leaf l w ∈ es ∧ l.axis? = some axis ∧ r = ⟨l, w, l.meaning w⟩ := by
  rw [readingsOn, List.mem_filter, mem_readingsOf]
  constructor
  · rintro ⟨⟨l, w, he, rfl⟩, hon⟩
    exact ⟨l, w, he, by simpa [Reading.isOn] using hon, rfl⟩
  · rintro ⟨l, w, he, ha, rfl⟩
    exact ⟨⟨l, w, he, rfl⟩, by simpa [Reading.isOn] using ha⟩

theorem draftOf_eq (es : List Event) : draftOf es = Draft.empty.acceptAll (readingsOf es) := by
  unfold draftOf
  generalize Draft.empty = draft
  induction es generalizing draft with
  | nil => rfl
  | cons e es ih =>
    cases e with
    | leaf l w => exact ih (draft.accept (l.meaning w))
    | omitted body => exact ih draft

section Writes

variable {pattern : Text} {body : List Node} {location : Location} {es : List Event} {axis : Axis}
  {w : Text}

/-- What was written tells what it says. -/
theorem Leaf.tells_of_render {l : Leaf} (h : l.render location = .ok (some w)) :
    l.Tells w (l.meaning w) := by
  cases l with
  | field f =>
    obtain ⟨raw, negative, m, -, -, hpos, hp⟩ := prints_of_render h
    refine ⟨Numeral.ofText w, ⟨fun c hc => ?_, hp.plain.integer, hp.plain.fraction⟩, ?_,
      hp.spelled.symm, rfl⟩
    · rw [hp.sign] at hc
      split at hc
      · rename_i hneg
        cases hc
        refine ⟨?_, .inr rfl⟩
        by_contra hs
        rw [hpos (by simpa using hs)] at hneg
        simp at hneg
      · cases hc
    · simp [Numeral.hasDigits, hp.plain.integer_ne_nil]
  | sign mark =>
    obtain ⟨raw, -, rfl⟩ := render_sign h
    have hne := positive_ne_negative mark
    by_cases hz : raw.isAtLeastZero = true
    · exact .inl (by simp [hz, meaning])
    · exact .inr (by simp [hz, meaning, hne.symm])
  | literal t =>
    cases h
    exact ⟨rfl, rfl⟩

theorem told_of_writes (hw : Writes location body es) : Told (readingsOf es) := by
  intro r hr
  obtain ⟨l, w, he, rfl⟩ := mem_readingsOf.1 hr
  exact Leaf.tells_of_render (hw.mem_leaf he).2

/-- The leaves that are written stand in the tree in the same order. -/
theorem leaves_sublist_of_writes (hw : Writes location body es) :
    ((readingsOf es).map (·.leaf)).Sublist (leavesOf body) := by
  have happend (a b : List Event) : readingsOf (a ++ b) = readingsOf a ++ readingsOf b :=
    List.filterMap_append
  induction hw with
  | nil => exact .slnil
  | leaf _ _ ih => exact .cons_cons _ ih
  | taken _ _ ihb ih | sequence _ _ ihb ih =>
    rw [happend, List.map_append]
    exact ihb.append ih
  | omitted _ _ ih => exact ih.trans (List.sublist_append_right _ _)

/-- What is read back is what the events say. -/
theorem meaning_of_writes (hc : compile pattern = .ok body) (hw : Writes location body es) :
    Meaning (readingsOf es) (draftOf es).build := by
  obtain ⟨hunits, hsigns, -⟩ := validate_of_compile hc
  have hsub := leaves_sublist_of_writes hw
  rw [draftOf_eq]
  exact meaning_of_told (told_of_writes hw) (hunits.sublist (hsub.filterMap _)) fun axis =>
    ((hsub.filterMap Leaf.signAxis?).count_le axis).trans (hsigns axis)

/-! ## The sign -/

/-- What is written is read as a finite number, with the sign that is written. -/
theorem exists_value_of_render {f : Field} (h : (Leaf.field f).render location = .ok (some w)) :
    ∃ k : Magnitude, (Numeral.ofText w).value = .finite (Numeral.ofText w).isNegative k ∧
      k.toRat = nearestDouble (Numeral.ofText w).toRat ∧
        (k.toRat = 0 → (Numeral.ofText w).toRat = 0) := by
  obtain ⟨raw, negative, m, -, -, -, hp⟩ := Leaf.prints_of_render h
  obtain ⟨k, hk, hkr, hround⟩ := hp.exists_value
  refine ⟨k, hk, hkr, fun h0 => ?_⟩
  -- a number that is read as zero would have been written as zero
  rw [hp.toRat, ← hround, h0, toPlaces_zero]

/-- A number that is written with a minus sign is not rounded to zero. -/
theorem toRat_ne_zero_of_isNegative {f : Field}
    (h : (Leaf.field f).render location = .ok (some w)) (hn : (Numeral.ofText w).isNegative = true) :
    (Numeral.ofText w).toRat ≠ 0 := by
  obtain ⟨raw, negative, m, -, -, -, hp⟩ := Leaf.prints_of_render h
  rw [hp.toRat]
  intro h0
  rw [Numeral.isNegative, hp.sign, if_neg (by simp [h0])] at hn
  cases hn

/-- A number is read below zero exactly if it is written with a minus sign. -/
theorem isBelowZero_of_render {f : Field} (h : (Leaf.field f).render location = .ok (some w)) :
    (Numeral.ofText w).value.isBelowZero = (Numeral.ofText w).isNegative := by
  obtain ⟨k, hk, -, hzero⟩ := exists_value_of_render h
  rw [hk, Double.isBelowZero]
  rcases hn : (Numeral.ofText w).isNegative with - | -
  · rfl
  · have hunits : k.units ≠ 0 := fun h0 =>
      toRat_ne_zero_of_isNegative h hn (hzero (by rw [Magnitude.toRat, h0, Nat.cast_zero, zero_div]))
    simp [hunits]

theorem isMinus_field (f : Field) (w : Text) (q : Quantity) (x : Double) :
    (Reading.mk (.field f) w (.number q x)).isMinus = (f.specifier.quantity.isSigned &&
      f.specifier.quantity.unit == .degree && x.isBelowZero) := rfl

/-- A minus of an axis is shown by a leaf of the axis. -/
theorem exists_leaf_of_minus {e : Event} (h : minus axis e = true) :
    ∃ l w, e = .leaf l w ∧ l.axis? = some axis := by
  rcases e with ⟨f | mark | t, w⟩ | body
  · simp only [minus, Bool.and_eq_true, beq_iff_eq] at h
    exact ⟨_, w, rfl, congrArg some h.1⟩
  · simp only [minus, Bool.and_eq_true, beq_iff_eq] at h
    exact ⟨_, w, rfl, congrArg some h.1⟩
  · cases h
  · cases h

/-- The readings of an axis say minus where the events show it, if no signed field reads meters:
those keep their own sign. -/
theorem any_isMinus_readingsOn (hw : Writes location body es)
    (hs : ∀ s ∈ fieldsOf (leavesOf body) axis, s.quantity.isSigned = true →
      s.quantity.unit = .degree) :
    (readingsOn es axis).any (·.isMinus) = es.any (minus axis) := by
  have hleaf {l : Leaf} {w : Text} (he : .leaf l w ∈ es) (ha : l.axis? = some axis) :
      (Reading.mk l w (l.meaning w)).isMinus = minus axis (.leaf l w) := by
    obtain ⟨hl, hr⟩ := hw.mem_leaf he
    cases l with
    | field f =>
      have ha : f.specifier.quantity.axis = axis := Option.some.inj ha
      rcases hsigned : f.specifier.quantity.isSigned with - | -
      · have hsign := Leaf.sign_ofText_of_render hr hsigned
        simp [Reading.isMinus, minus, Numeral.isNegative, hsigned, hsign]
      · have hu := hs _ (mem_fieldsOf.2 ⟨mem_specifiers hl, ha⟩) hsigned
        rw [Leaf.meaning, isMinus_field, isBelowZero_of_render hr]
        simp [minus, ha, hsigned, hu]
    | sign mark =>
      have ha : mark.axis = axis := Option.some.inj ha
      obtain ⟨raw, -, rfl⟩ := Leaf.render_sign hr
      have hne := Leaf.positive_ne_negative mark
      by_cases hz : raw.isAtLeastZero = true
      · simp [Reading.isMinus, minus, hz, hne]
      · simp [Reading.isMinus, minus, ha, hz, hne.symm]
    | literal t => rfl
  rw [Bool.eq_iff_iff, List.any_eq_true, List.any_eq_true]
  constructor
  · rintro ⟨r, hr, hminus⟩
    obtain ⟨l, w, he, ha, rfl⟩ := mem_readingsOn.1 hr
    exact ⟨_, he, (hleaf he ha).symm.trans hminus⟩
  · rintro ⟨e, he, hminus⟩
    obtain ⟨l, w, rfl, ha⟩ := exists_leaf_of_minus hminus
    exact ⟨_, mem_readingsOn.2 ⟨l, w, he, ha, rfl⟩, (hleaf he ha).trans hminus⟩

theorem withSign_finite {rs : List Reading} {negative : Bool} {m : Magnitude} :
    withSign rs (.finite negative m) = .finite (negative ^^ rs.any (·.isMinus)) m := by
  unfold withSign
  cases rs.any (·.isMinus) <;> cases negative <;> rfl

end Writes

/-! ## The shares of an angle -/

namespace Event

/-- What an event adds to the size of an axis, in degrees or meters. -/
def share? (axis : Axis) : Event → Option ℚ
  | leaf (.field f) w =>
    if f.specifier.quantity.axis = axis then
      some ((Numeral.ofText w).toRat / f.specifier.quantity.unit.perBase)
    else none
  | _ => none

/-- What events add to the size of an axis, one after the other. -/
def sharesOf (es : List Event) (axis : Axis) : List ℚ := es.filterMap (share? axis)

end Event

section Shares

variable {es : List Event} {axis : Axis}

theorem shown_cons (e : Event) (es : List Event) (axis : Axis) (unit : MeasureUnit) :
    shown (e :: es) axis unit = (e.number? axis unit).or (shown es axis unit) := by
  unfold shown
  rw [List.findSome?_cons]
  cases e.number? axis unit <;> rfl

theorem amount_cons_of_none {e : Event} (h : ∀ unit, e.number? axis unit = none) :
    amount (e :: es) axis = amount es axis := by
  simp [amount, shown_cons, h]

/-- A number adds its share to the amount, if no other one is shown for its unit. -/
theorem amount_cons_of_field {f : Field} {w : Text} (ha : f.specifier.quantity.axis = axis)
    (hnone : shown es axis f.specifier.quantity.unit = none) :
    amount (.leaf (.field f) w :: es) axis =
      (Numeral.ofText w).toRat / f.specifier.quantity.unit.perBase + amount es axis := by
  have hother {unit : MeasureUnit} (hu : f.specifier.quantity.unit ≠ unit) :
      shown (.leaf (.field f) w :: es) axis unit = shown es axis unit := by
    simp [shown_cons, number?, hu]
  have hself : shown (.leaf (.field f) w :: es) axis f.specifier.quantity.unit
      = some (Numeral.ofText w).toRat := by
    simp [shown_cons, number?, ha]
  unfold amount
  rcases hu : f.specifier.quantity.unit <;> rw [hu] at hself hnone hother <;>
    simp [hself, hnone, hother, MeasureUnit.perBase] <;> ring

/-- The shares make up the amount, if no unit of an axis is written twice. -/
theorem sum_sharesOf (h : (Leaf.specifiers ((readingsOf es).map (·.leaf))).Pairwise
    fun a b => b.sharesUnit a = false) : (sharesOf es axis).sum = amount es axis := by
  induction es with
  | nil => simp [sharesOf, amount, shown]
  | cons e es ih =>
    rcases e with ⟨f | mark | t, w⟩ | body
    · obtain ⟨hfirst, hrest⟩ := List.pairwise_cons.1 h
      by_cases ha : f.specifier.quantity.axis = axis
      · have hnone : shown es axis f.specifier.quantity.unit = none := by
          apply Option.eq_none_iff_forall_ne_some.2
          intro x hx
          obtain ⟨g, u, hg, hga, hgu, -⟩ := shown_eq_some hx
          have hmem : g.specifier ∈ Leaf.specifiers ((readingsOf es).map (·.leaf)) :=
            mem_specifiers (List.mem_map.2 ⟨_, mem_readingsOf.2 ⟨_, u, hg, rfl⟩, rfl⟩)
          have hne := hfirst _ hmem
          rw [sharesUnit_iff.2 ⟨hga.trans ha.symm, hgu⟩] at hne
          cases hne
        rw [amount_cons_of_field ha hnone, ← ih hrest]
        simp [sharesOf, share?, ha]
      · rw [amount_cons_of_none fun unit => by simp [number?, ha], ← ih hrest]
        simp [sharesOf, share?, ha]
    · exact (ih h).trans (amount_cons_of_none fun unit => rfl).symm
    · exact (ih h).trans (amount_cons_of_none fun unit => rfl).symm
    · exact (ih h).trans (amount_cons_of_none fun unit => rfl).symm

theorem length_sharesOf (es : List Event) (axis : Axis) : (sharesOf es axis).length =
    (fieldsOf ((readingsOf es).map (·.leaf)) axis).length := by
  induction es with
  | nil => rfl
  | cons e es ih =>
    rcases e with ⟨f | mark | t, w⟩ | body
    · by_cases ha : f.specifier.quantity.axis = axis
      · have hshares : sharesOf (.leaf (.field f) w :: es) axis = _ :: sharesOf es axis :=
          List.filterMap_cons_some (if_pos ha)
        have hfields : fieldsOf ((readingsOf (.leaf (.field f) w :: es)).map (·.leaf)) axis
            = f.specifier :: fieldsOf ((readingsOf es).map (·.leaf)) axis :=
          List.filter_cons_of_pos (by simpa using ha)
        rw [hshares, hfields, List.length_cons, List.length_cons, ih]
      · have hshares : sharesOf (.leaf (.field f) w :: es) axis = sharesOf es axis :=
          List.filterMap_cons_none (if_neg ha)
        have hfields : fieldsOf ((readingsOf (.leaf (.field f) w :: es)).map (·.leaf)) axis
            = fieldsOf ((readingsOf es).map (·.leaf)) axis :=
          List.filter_cons_of_neg (by simpa using ha)
        rw [hshares, hfields, ih]
    · exact ih
    · exact ih
    · exact ih

/-- The fields among the readings of an axis are those of the axis among all of them. -/
theorem specifiers_isOn (rs : List Reading) (axis : Axis) :
    Leaf.specifiers ((rs.filter (·.isOn axis)).map (·.leaf)) =
      fieldsOf (rs.map (·.leaf)) axis := by
  induction rs with
  | nil => rfl
  | cons r rest ih =>
    obtain ⟨l, w, c⟩ := r
    cases l with
    | field f =>
      by_cases ha : f.specifier.quantity.axis = axis
      · rw [List.filter_cons_of_pos (by simpa [Reading.isOn, Leaf.axis?] using ha)]
        show f.specifier :: Leaf.specifiers _ = _
        rw [ih]
        exact (List.filter_cons_of_pos (by simpa using ha)).symm
      · rw [List.filter_cons_of_neg (by simpa [Reading.isOn, Leaf.axis?] using ha), ih]
        exact (List.filter_cons_of_neg (by simpa using ha)).symm
    | sign mark =>
      rw [List.filter_cons]
      split
      · exact ih
      · exact ih
    | literal t => exact ih

/-- There are four units, so an axis has four fields at most. -/
theorem length_fieldsOf_le {leaves : List Leaf} (axis : Axis)
    (h : (Leaf.specifiers leaves).Pairwise fun a b => b.sharesUnit a = false) :
    (fieldsOf leaves axis).length ≤ 4 := by
  have hnodup : ((fieldsOf leaves axis).map (·.quantity.unit)).Nodup := by
    rw [List.Nodup, List.pairwise_map]
    refine List.Pairwise.imp_of_mem ?_ (h.filter _)
    intro a b ha hb hne hu
    rw [sharesUnit_iff.2 ⟨((mem_fieldsOf.1 hb).2.trans (mem_fieldsOf.1 ha).2.symm), hu.symm⟩] at hne
    cases hne
  have hsub : (fieldsOf leaves axis).map (·.quantity.unit) ⊆ [.degree, .minute, .second, .meter] := by
    intro unit _
    cases unit <;> decide
  simpa using (List.subperm_of_subset hnodup hsub).length_le

/-- A part of an angle is read in one step, and brought to degrees in another. -/
theorem exists_degrees? {f : Field} {w : Text} (hu : f.specifier.quantity.unit ≠ .meter)
    (hs : (Numeral.ofText w).sign = none) (hle : (Numeral.ofText w).toRat ≤ 1000) :
    ∃ x, (Reading.mk (.field f) w ((Leaf.field f).meaning w)).degrees? = some x ∧
      Near x ((Numeral.ofText w).toRat / f.specifier.quantity.unit.perBase) 2 := by
  have hnear : Near (Numeral.ofText w).value (Numeral.ofText w).toRat 1 := by
    rw [Numeral.value, Numeral.isNegative, hs]
    exact Near.toDouble hle
  rcases hunit : f.specifier.quantity.unit
  · refine ⟨(Numeral.ofText w).value, ?_, ?_⟩
    · simp [Reading.degrees?, Leaf.meaning, hunit, hnear.abs_eq]
    · rw [show ((MeasureUnit.degree.perBase : ℕ) : ℚ) = 1 from Nat.cast_one, div_one]
      exact hnear.mono (by norm_num)
  · exact ⟨(Numeral.ofText w).value.divNat 60, by simp [Reading.degrees?, Leaf.meaning, hunit],
      hnear.divNat hle (by norm_num) (by norm_num : 0 < 60)⟩
  · exact ⟨(Numeral.ofText w).value.divNat 3600, by simp [Reading.degrees?, Leaf.meaning, hunit],
      hnear.divNat hle (by norm_num) (by norm_num : 0 < 3600)⟩
  · exact absurd hunit hu

/-- The parts that are read of an angle are near to its shares. -/
theorem near_sharesOf (h : ∀ f w, .leaf (.field f) w ∈ es → f.specifier.quantity.axis = axis →
    f.specifier.quantity.unit ≠ .meter ∧ (Numeral.ofText w).sign = none ∧
      (Numeral.ofText w).toRat ≤ 1000) :
    List.Forall₂ (fun x q => Near x q 2) ((readingsOn es axis).filterMap (·.degrees?))
      (sharesOf es axis) := by
  induction es with
  | nil => exact .nil
  | cons e es ih =>
    have hrest := ih fun f w hf => h f w (List.mem_cons_of_mem _ hf)
    rcases e with ⟨f | mark | t, w⟩ | body
    · by_cases ha : f.specifier.quantity.axis = axis
      · obtain ⟨hu, hs, hle⟩ := h f w List.mem_cons_self ha
        obtain ⟨x, hx, hnear⟩ := exists_degrees? hu hs hle
        have hshares : sharesOf (.leaf (.field f) w :: es) axis = _ :: sharesOf es axis :=
          List.filterMap_cons_some (if_pos ha)
        have hreadings : readingsOn (.leaf (.field f) w :: es) axis
            = ⟨.field f, w, (Leaf.field f).meaning w⟩ :: readingsOn es axis :=
          List.filter_cons_of_pos (by simpa [Reading.isOn, Leaf.axis?] using ha)
        rw [hshares, hreadings, List.filterMap_cons_some hx]
        exact .cons hnear hrest
      · have hshares : sharesOf (.leaf (.field f) w :: es) axis = sharesOf es axis :=
          List.filterMap_cons_none (if_neg ha)
        have hreadings : readingsOn (.leaf (.field f) w :: es) axis = readingsOn es axis :=
          List.filter_cons_of_neg (by simpa [Reading.isOn, Leaf.axis?] using ha)
        rwa [hshares, hreadings]
    · have hreadings : (readingsOn (.leaf (.sign mark) w :: es) axis).filterMap (·.degrees?)
          = (readingsOn es axis).filterMap (·.degrees?) := by
        simp only [readingsOn, readingsOf, reading?, List.filterMap_cons, List.filter_cons]
        split
        · rfl
        · rfl
      rwa [hreadings]
    · exact hrest
    · exact hrest

theorem sharesOf_nonneg : ∀ q ∈ sharesOf es axis, 0 ≤ q := by
  intro q hq
  obtain ⟨e, -, he⟩ := List.mem_filterMap.1 hq
  unfold share? at he
  split at he
  · split at he
    · rw [← Option.some.inj he]
      exact div_nonneg (Decimal.toRat_nonneg _) (Nat.cast_nonneg _)
    · cases he
  · cases he

end Shares

/-! ## The component -/

section Writes

variable {body : List Node} {location : Location} {es : List Event} {axis : Axis}

/-- Where only degrees are read, their sizes are summed up. -/
theorem degrees?_of_degree (hw : Writes location body es)
    (h : ∀ s ∈ fieldsOf (leavesOf body) axis, s.quantity.unit = .degree) :
    ∀ r ∈ readingsOn es axis, r.degrees? = r.number?.map Double.abs := by
  intro r hr
  obtain ⟨l, w, he, ha, rfl⟩ := mem_readingsOn.1 hr
  cases l with
  | field f =>
    have hu := h _ (mem_fieldsOf.2 ⟨mem_specifiers (hw.mem_leaf he).1, Option.some.inj ha⟩)
    simp only [Reading.degrees?, Reading.number?, Leaf.meaning, hu, Option.map_some]
  | sign mark => rfl
  | literal t => rfl

/-- An elevation without a sign mark is not made negative: its number keeps its own sign. -/
theorem any_isMinus_of_signedOnly (hw : Writes location body es)
    (h : SignedOnly (leavesOf body) .elevation) :
    (readingsOn es .elevation).any (·.isMinus) = false := by
  rw [List.any_eq_false]
  intro r hr
  obtain ⟨l, w, he, ha, rfl⟩ := mem_readingsOn.1 hr
  cases l with
  | field f =>
    rw [Leaf.meaning, isMinus_field, Quantity.unit_of_elevation (Option.some.inj ha)]
    simp
  | sign mark => exact absurd ha (h.1 _ (hw.mem_leaf he).1)
  | literal t => cases ha

end Writes

section Component

variable {pattern : Text} {body : List Node} {location : Location} {es : List Event} {axis : Axis}
  {negative : Bool} {m : Magnitude}

/-- An angle gets the size that its parts sum up to, and the sign that is shown. -/
theorem component_of_sumOf (hc : compile pattern = .ok body) (hw : Writes location body es)
    (ha : axis ≠ .elevation) (hs : ∀ s ∈ fieldsOf (leavesOf body) axis,
      s.quantity.isSigned = true → s.quantity.unit = .degree)
    (hx : ((draftOf es).build.component axis).isSome = true) {m' : Magnitude}
    (hsum : sumOf (readingsOn es axis) = .finite false m') :
    (draftOf es).build.component axis = some (.finite (es.any (minus axis)) m') := by
  obtain ⟨x, hx⟩ := Option.isSome_iff_exists.1 hx
  have hangle : x = withSign (readingsOn es axis) (sumOf (readingsOn es axis)) :=
    (meaning_of_writes hc hw).angle axis ha x hx
  rw [hx, hangle, hsum, withSign_finite, Bool.false_xor, any_isMinus_readingsOn hw hs]

section Minutes

variable {k : Specifier} (hc : compile pattern = .ok body) (hw : Writes location body es)
  (hin : location.InRange) (hx : location.component axis = some (.finite negative m))
  (ht : togetherAll axis body = true) (hk : k ∈ fieldsOf (leavesOf body) axis)
  (hku : k.quantity.unit = .minute)
  (hplaces : ∀ s ∈ fieldsOf (leavesOf body) axis, s.fractionDigits ≤ 14)

include hc hw hin hx ht hk hku hplaces

/-- What is shown of an angle with minutes is below the next power of ten, as the angle is. -/
theorem amount_le_of_minutes : amount es axis ≤ 1000 := by
  obtain ⟨_, _, he, hsmall⟩ := hin.exists_finite hx
  cases he
  obtain ⟨s, hs, hunit, htotal⟩ := exists_showsTotal hc hw hx ht hk hku hplaces
  have hlt := toPlaces_measure_lt hunit (by cases axis <;> decide)
    (hsmall (ne_elevation_of_minute hk hku)) s.fractionDigits
  rw [← amount_of_showsTotal hw hs hunit htotal] at hlt
  have hbase : s.quantity.unit.perBase = s.quantity.unit.perDegree := by
    rcases hunit with hu | hu <;> rw [hu] <;> rfl
  rw [hbase] at hlt
  refine (lt_of_mul_lt_mul_right hlt (Nat.cast_nonneg _)).le.trans ?_
  cases axis <;> norm_num [Axis.degreeDigits]

/-- The numbers of an angle with minutes have no signs and stay below a thousand. -/
theorem parts_of_minutes (hmarked : Marked (leavesOf body) axis) {f : Field} {w : Text}
    (he : .leaf (.field f) w ∈ es) (ha : f.specifier.quantity.axis = axis) :
    f.specifier.quantity.unit ≠ .meter ∧ (Numeral.ofText w).sign = none ∧
      (Numeral.ofText w).toRat ≤ 1000 := by
  subst ha
  obtain ⟨hf, hr⟩ := hw.mem_leaf he
  refine ⟨unit_ne_meter_of_minute hk hku rfl, ?_, ?_⟩
  · exact Leaf.sign_ofText_of_render hr (hmarked.2 _ (mem_fieldsOf.2 ⟨mem_specifiers hf, rfl⟩))
  · refine (toRat_lt_of_minutes hc hw hin he ht hk hku hplaces).le.trans ?_
    cases f.specifier.quantity <;>
      norm_num [Quantity.partDigits, Quantity.unit, Quantity.axis, Axis.degreeDigits]

/-- An angle with minutes is read back up to a few roundings, with the sign that is shown. -/
theorem exists_component_of_minutes (hmarked : Marked (leavesOf body) axis) :
    ∃ m', (draftOf es).build.component axis = some (.finite (es.any (minus axis)) m') ∧
      |m'.toRat - amount es axis| ≤ 16 / 2 ^ 44 ∧ (amount es axis = 0 → m'.toRat = 0) := by
  have hunits := (meaning_of_writes hc hw).units
  have hshares := near_sharesOf fun f w he ha =>
    parts_of_minutes hc hw hin hx ht hk hku hplaces hmarked he ha
  have hlen : (sharesOf es axis).length ≤ 4 :=
    (length_sharesOf es axis).trans_le (length_fieldsOf_le axis hunits)
  have hsum : (sharesOf es axis).sum = amount es axis := sum_sharesOf hunits
  have hamount := amount_le_of_minutes hc hw hin hx ht hk hku hplaces
  -- four parts take three steps each
  have hnear := Near.zero.foldl_add hshares sharesOf_nonneg le_rfl (by rwa [zero_add, hsum])
    (by rw [hshares.length_eq]; omega)
  obtain ⟨m', hm', hdist, hzero⟩ := hnear.mono (k := 16) (by rw [hshares.length_eq]; omega)
  rw [zero_add, hsum] at hdist hzero
  refine ⟨m', component_of_sumOf hc hw (ne_elevation_of_minute hk hku) ?_ ?_ hm',
    by exact_mod_cast hdist, hzero⟩
  · intro s hs hsigned
    rw [hmarked.2 s hs] at hsigned
    cases hsigned
  · exact isSome_component_of_mem hw ht (by rw [hx]; rfl) hk

end Minutes

section Alone

variable {s : Specifier} (hc : compile pattern = .ok body)
  (h : fieldsOf (leavesOf body) axis = [s]) (hw : Writes location body es)
  (hx : location.component axis = some (.finite negative m))
  (hwhole : s.quantity.isSigned = false → s.quantity.unit = .degree → s.fractionDigits ≠ 0)
  (hshows : Shows body es axis)

include h hw

/-- The number of a field that stands alone is the only one that is read for its axis. -/
theorem numbers_of_alone {f : Field} {w : Text} (he : .leaf (.field f) w ∈ es)
    (ha : f.specifier.quantity.axis = axis) :
    (readingsOn es axis).filterMap (·.number?) = [(Numeral.ofText w).value] := by
  have hlen : ((readingsOn es axis).filterMap (·.number?)).length ≤ 1 := by
    have hsub : (fieldsOf ((readingsOf es).map (·.leaf)) axis).Sublist [s] := by
      rw [← h]
      exact ((leaves_sublist_of_writes hw).filterMap _).filter _
    rw [readingsOn, length_numbers ((told_of_writes hw).filter _), specifiers_isOn]
    exact hsub.length_le
  have hmem : (Numeral.ofText w).value ∈ (readingsOn es axis).filterMap (·.number?) := by
    exact List.mem_filterMap.2 ⟨_, mem_readingsOn.2 ⟨_, w, he, congrArg some ha, rfl⟩, rfl⟩
  generalize (readingsOn es axis).filterMap (·.number?) = numbers at hlen hmem
  rcases numbers with - | ⟨x, - | ⟨y, more⟩⟩
  · cases hmem
  · rw [List.mem_singleton.1 hmem]
  · simp at hlen

include hc hx hwhole

/-- The one sign of an elevation with a signed field is written by the field. -/
theorem any_minus_of_render (hsigned : SignedOnly (leavesOf body) axis) {f : Field} {w : Text}
    (he : .leaf (.field f) w ∈ es) (ha : f.specifier.quantity.axis = axis) :
    es.any (minus axis) = (Numeral.ofText w).isNegative := by
  obtain ⟨hf, hr⟩ := hw.mem_leaf he
  obtain ⟨hs, -⟩ := prints_of_alone hc h hw hx hwhole he ha
  rw [Bool.eq_iff_iff, List.any_eq_true]
  constructor
  · rintro ⟨e, he', hminus⟩
    rcases e with ⟨g | mark | t, u⟩ | body'
    · simp only [minus, Bool.and_eq_true, beq_iff_eq] at hminus
      obtain ⟨hg, hgr⟩ := hw.mem_leaf he'
      obtain ⟨hgs, -⟩ := prints_of_alone hc h hw hx hwhole he' hminus.1
      -- the same field writes the same text
      rw [render_congr hc hg hf (hgs.trans hs.symm), hr] at hgr
      cases hgr
      exact hminus.2
    · simp only [minus, Bool.and_eq_true, beq_iff_eq] at hminus
      exact absurd (congrArg some hminus.1) (hsigned.1 _ (hw.mem_leaf he').1)
    · cases hminus
    · cases hminus
  · intro hneg
    exact ⟨_, he, by simp [minus, ha, hneg]⟩

include hshows

/-- A single number is read back as the double that is nearest to it, with the sign that is
shown. -/
theorem exists_component_of_alone
    (hsign : SignedOnly (leavesOf body) axis ∨ Marked (leavesOf body) axis) :
    ∃ m', (draftOf es).build.component axis = some (.finite (es.any (minus axis)) m') ∧
      m'.toRat = nearestDouble (amount es axis) := by
  have hmeaning := meaning_of_writes hc hw
  obtain ⟨f, w, he, hs, -, hp⟩ := exists_prints_of_alone hc h hw hx hwhole hshows
  obtain ⟨hmem, ha⟩ := mem_of_alone h
  have hmem : s ∈ fieldsOf (leavesOf body) axis := by rw [h]; exact List.mem_cons_self
  have hfa : f.specifier.quantity.axis = axis := by rw [hs]; exact ha
  obtain ⟨hf, hr⟩ := hw.mem_leaf he
  obtain ⟨k, hk, hkr, -⟩ := exists_value_of_render hr
  have hamount : (Numeral.ofText w).toRat = amount es axis := by
    rw [amount_of_alone hc h hw hx hwhole hshows, hp.toRat]
  have hnumbers := numbers_of_alone h hw he hfa
  have hsome : ((draftOf es).build.component axis).isSome = true :=
    (isSome_component_draftOf es axis).2 ⟨f, w, he, hfa⟩
  rcases unit_of_alone hc h with hu | hu
  · have helev : axis ≠ .elevation := by
      intro hele
      rw [Quantity.unit_of_elevation (ha.trans hele)] at hu
      cases hu
    have hdegree : ∀ t ∈ fieldsOf (leavesOf body) axis, t.quantity.unit = .degree := by
      intro t ht
      rw [h, List.mem_singleton] at ht
      rwa [ht]
    -- the sum of a single number is that number
    obtain ⟨n, hn, hnr⟩ := Double.exists_add
      (show Magnitude.zero.toRat + k.toRat ≤ k.toRat by simp)
    rw [Magnitude.toRat_zero, zero_add, nearestDouble_toRat] at hnr
    have hsum : sumOf (readingsOn es axis) = .finite false n := by
      rw [sumOf, List.filterMap_congr (degrees?_of_degree hw hdegree), ← List.map_filterMap,
        hnumbers, hk]
      exact hn
    exact ⟨n, component_of_sumOf hc hw helev (fun t ht _ => hdegree t ht) hsome hsum,
      by rw [hnr, hkr, hamount]⟩
  · obtain rfl : axis = .elevation := ha.symm.trans (Quantity.axis_of_meter hu)
    obtain ⟨x, hx'⟩ := Option.isSome_iff_exists.1 hsome
    obtain ⟨meters, hmeters, rfl⟩ := hmeaning.elevation x hx'
    change (readingsOn es .elevation).filterMap (·.number?) = [meters] at hmeters
    rw [hnumbers, List.cons.injEq] at hmeters
    refine ⟨k, ?_, by rw [hkr, hamount]⟩
    change _ = some (withSign (readingsOn es .elevation) meters) at hx'
    rw [hx', ← hmeters.1, hk, withSign_finite]
    rcases hsign with hsigned | hmarked
    · rw [any_isMinus_of_signedOnly hw hsigned, Bool.xor_false,
        any_minus_of_render hc h hw hx hwhole hsigned he hfa]
    · have hunsigned := hmarked.2 s hmem
      have hpos : (Numeral.ofText w).isNegative = false := by
        rw [Numeral.isNegative, Leaf.sign_ofText_of_render hr (by rw [hs]; exact hunsigned)]
        rfl
      rw [hpos, Bool.false_xor, any_isMinus_readingsOn hw]
      intro t ht hsigned
      rw [hmarked.2 t ht] at hsigned
      cases hsigned

end Alone

end Component

end GeoPattern
