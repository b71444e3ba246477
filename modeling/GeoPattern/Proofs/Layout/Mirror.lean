/-
Locations that differ in signs only. Whatever a text takes from the size of a component, it takes
alike from both: what is rounded, cut off or split is the size. So two such locations are written
with the same leaves, and a sign shows in a mark, or as the minus in front of a signed number that
is not rounded to zero, and nowhere else.
Main statements: `Specifier.render_finite`, `mirrors_of_render`, `format_mirrored`.
-/
import GeoPattern.Proofs.Layout.Complete
import GeoPattern.Proofs.Layout.Rewrite

namespace GeoPattern

open Node Event

variable {location other : Location}

/-! ## Signs -/

/-- The location with the signs of some components turned. -/
def Location.mirrored (location : Location) (turned : Axis → Bool) : Location where
  latitude := location.latitude.map fun x => if turned .latitude then x.neg else x
  longitude := location.longitude.map fun x => if turned .longitude then x.neg else x
  elevation := location.elevation.map fun x => if turned .elevation then x.neg else x

theorem Location.component_mirrored (location : Location) (turned : Axis → Bool) (axis : Axis) :
    (location.mirrored turned).component axis =
      (location.component axis).map fun x => if turned axis then x.neg else x := by
  cases axis <;> rfl

/-- The locations have the same components up to signs, and all of them are finite. -/
def SameSizes (location other : Location) : Prop :=
  ∀ axis, location.component axis = none ∧ other.component axis = none ∨
    ∃ negative negative' m, location.component axis = some (.finite negative m) ∧
      other.component axis = some (.finite negative' m)

theorem sameSizes_mirrored (hfin : ∀ axis x, location.component axis = some x → x.isFinite = true)
    (turned : Axis → Bool) : SameSizes location (location.mirrored turned) := by
  intro axis
  rw [location.component_mirrored]
  rcases hx : location.component axis with - | x
  · exact .inl ⟨rfl, rfl⟩
  · obtain ⟨negative, m, rfl⟩ := Double.exists_finite (hfin axis x hx)
    refine .inr ⟨negative, negative ^^ turned axis, m, rfl, ?_⟩
    cases turned axis <;> cases negative <;> rfl

theorem Double.isAtLeastZero_finite (negative : Bool) (m : Magnitude) :
    (Double.finite negative m).isAtLeastZero = decide (0 ≤ signed negative m.toRat) := by
  rw [Bool.eq_iff_iff, decide_eq_true_iff, ← not_lt, signed_neg_iff negative m.toRat_nonneg, Ne,
    m.toRat_eq_zero_iff, isAtLeastZero]
  cases negative <;> simp

/-! ## Numbers -/

/-- The minus sign of what is below zero. -/
def minusSign (q : ℚ) : Text := if q < 0 then ['-'] else []

namespace Specifier

variable {s : Specifier} {w : Text} {m : Magnitude}

/-- A number is written as its size, with a minus sign in front if it is rounded to less than
zero. -/
theorem render_finite (s : Specifier) (negative : Bool) (m : Magnitude) :
    s.render (.finite negative m) = (s.render (.finite false m)).map
      (minusSign (toPlaces s.fractionDigits (signed negative m.toRat)) ++ ·) := by
  unfold render
  dsimp only
  rcases hy : (Decimal.ofMagnitude m).quantize s.fractionDigits with e | y
  · rfl
  · have hsign : toPlaces s.fractionDigits (signed negative m.toRat) < 0 ↔
        negative = true ∧ y.coefficient ≠ 0 := by
      rw [toPlaces_signed, signed_neg_iff negative (toPlaces_nonneg _ m.toRat_nonneg),
        ← Decimal.toRat_ofMagnitude, ← Decimal.toRat_of_quantize (Decimal.coarse_ofMagnitude m) hy,
        Ne, y.toRat_eq_zero_iff]
    simp [renderRounded, minusSign, hsign, Except.map]

/-- The size of a number is written without a minus sign. -/
theorem head?_of_render (h : s.render (.finite false m) = .ok w) : w.head? ≠ some (.char '-') := by
  have hp := prints_of_render h
  have hsign : (Numeral.ofText w).sign = none := by simp [hp.sign]
  obtain ⟨c, more, hinteger, hc⟩ := hp.plain.exists_integer
  rw [← hp.spelled, Numeral.spelledWith, hsign, hinteger]
  rintro hminus
  cases Option.some.inj hminus
  exact absurd hc (by decide)

end Specifier

/-! ## Leaves -/

/-- What is present alike is refused alike, missing in both, or written in both. -/
theorem present_cases {r r' : Except FormatError (Option Text)}
    (h : r'.map Option.isSome = r.map Option.isSome) :
    (∃ e, r = .error e ∧ r' = .error e) ∨ (r = .ok none ∧ r' = .ok none) ∨
      ∃ w w', r = .ok (some w) ∧ r' = .ok (some w') := by
  rcases r with e | - | w <;> rcases r' with e' | - | w' <;> cases h
  · exact .inl ⟨e, rfl, rfl⟩
  · exact .inr (.inl ⟨rfl, rfl⟩)
  · exact .inr (.inr ⟨w, w', rfl, rfl⟩)

/-- What is written for a leaf from two locations. A literal and an unsigned field have one text
for both. A mark shows whether its component is at least zero. The texts of a signed field are the
same behind a minus sign, which stands where the component is below zero after rounding. -/
def Leaf.Mirrors (location other : Location) (l : Leaf) (w w' : Text) : Prop :=
  match l with
  | .literal t => w = t ∧ w' = t
  | .sign mark => ∃ negative negative' m,
      location.component mark.axis = some (.finite negative m) ∧
      other.component mark.axis = some (.finite negative' m) ∧
      w = [if 0 ≤ signed negative m.toRat then mark.positive else mark.negative] ∧
      w' = [if 0 ≤ signed negative' m.toRat then mark.positive else mark.negative]
  | .field f =>
    if f.specifier.quantity.isSigned then ∃ negative negative' m digits,
      location.component f.specifier.quantity.axis = some (.finite negative m) ∧
      other.component f.specifier.quantity.axis = some (.finite negative' m) ∧
      digits.head? ≠ some (.char '-') ∧
      w = minusSign (toPlaces f.specifier.fractionDigits (signed negative m.toRat)) ++ digits ∧
      w' = minusSign (toPlaces f.specifier.fractionDigits (signed negative' m.toRat)) ++ digits
    else w = w'

namespace Leaf

variable {l : Leaf} {f : Field} {w w' : Text}

/-- A signed field writes the component itself. -/
theorem render_signed {negative : Bool} {m : Magnitude}
    (hs : f.specifier.quantity.isSigned = true)
    (hx : location.component f.specifier.quantity.axis = some (.finite negative m)) :
    (Leaf.field f).render location = (f.specifier.render (.finite false m)).map fun digits =>
      some (minusSign (toPlaces f.specifier.fractionDigits (signed negative m.toRat)) ++
        digits) := by
  unfold render
  dsimp only
  rw [hx]
  dsimp only
  rw [Field.value_of_signed hs]
  simp only [bind, Except.bind]
  rw [f.specifier.render_finite]
  rcases f.specifier.render (.finite false m) with e | digits <;> rfl

/-- An unsigned field takes its number from the size of the component. -/
theorem render_unsigned (h : SameSizes location other)
    (hs : f.specifier.quantity.isSigned = false) :
    (Leaf.field f).render other = (Leaf.field f).render location := by
  unfold render
  dsimp only
  rcases h f.specifier.quantity.axis with ⟨hx, hx'⟩ | ⟨negative, negative', m, hx, hx'⟩
  · rw [hx, hx']
  · have hvalue : f.value (.finite negative' m) = f.value (.finite negative m) := by
      rw [Field.value_of_unsigned hs, Field.value_of_unsigned hs]
      rfl
    rw [hx, hx']
    dsimp only
    rw [hvalue]

/-- A leaf is written, missing or refused for both locations. -/
theorem map_isSome_render (h : SameSizes location other) (l : Leaf) :
    (l.render other).map Option.isSome = (l.render location).map Option.isSome := by
  cases l with
  | literal t => rfl
  | sign mark =>
    unfold render
    dsimp only
    rcases h mark.axis with ⟨hx, hx'⟩ | ⟨negative, negative', m, hx, hx'⟩
    · rw [hx, hx']
    · rw [hx, hx']
      rfl
  | field f =>
    rcases hs : f.specifier.quantity.isSigned with - | -
    · rw [render_unsigned h hs]
    · rcases h f.specifier.quantity.axis with ⟨hx, hx'⟩ | ⟨negative, negative', m, hx, hx'⟩
      · unfold render
        dsimp only
        rw [hx, hx']
      · rw [render_signed hs hx, render_signed hs hx']
        rcases f.specifier.render (.finite false m) with e | digits <;> rfl

/-- The texts of a leaf differ in nothing but the sign. -/
theorem mirrors_of_render (h : SameSizes location other) (hw : l.render location = .ok (some w))
    (hw' : l.render other = .ok (some w')) : l.Mirrors location other w w' := by
  cases l with
  | literal t =>
    cases hw
    cases hw'
    exact ⟨rfl, rfl⟩
  | sign mark =>
    obtain ⟨x, hx, rfl⟩ := render_sign hw
    obtain ⟨x', hx', rfl⟩ := render_sign hw'
    rcases h mark.axis with ⟨hnone, -⟩ | ⟨negative, negative', m, hm, hm'⟩
    · rw [hx] at hnone
      cases hnone
    · rw [hm] at hx
      rw [hm'] at hx'
      cases hx
      cases hx'
      refine ⟨negative, negative', m, hm, hm', ?_, ?_⟩
      · simp [Double.isAtLeastZero_finite]
      · simp [Double.isAtLeastZero_finite]
  | field f =>
    unfold Mirrors
    dsimp only
    split
    · rename_i hs
      rcases h f.specifier.quantity.axis with ⟨hnone, -⟩ | ⟨negative, negative', m, hm, hm'⟩
      · obtain ⟨raw, _, hraw, -⟩ := render_field_eq_ok_iff.1 hw
        rw [hraw] at hnone
        cases hnone
      · rw [render_signed hs hm] at hw
        rw [render_signed hs hm'] at hw'
        rcases hd : f.specifier.render (.finite false m) with e | digits <;> rw [hd] at hw hw'
        · cases hw
        · cases hw
          cases hw'
          exact ⟨negative, negative', m, digits, hm, hm', Specifier.head?_of_render hd, rfl, rfl⟩
    · rename_i hs
      rw [render_unsigned h (by simpa using hs), hw] at hw'
      cases hw'
      rfl

end Leaf

/-! ## Events -/

/-- The text that a location has for a leaf; none for a leaf that is not written. -/
def Leaf.textFrom (location : Location) (l : Leaf) : Text :=
  match l.render location with
  | .ok (some w) => w
  | _ => []

/-- The events of two locations: the same leaves, or the same group that is left out. -/
inductive Event.Mirrors (location other : Location) : Event → Event → Prop
  | leaf {l : Leaf} {w w' : Text} : l.Mirrors location other w w' →
      Mirrors location other (.leaf l w) (.leaf l w')
  | omitted {body : List Node} : Mirrors location other (.omitted body) (.omitted body)

/-- A location is written with the same leaves as one with the same sizes. -/
theorem Writes.exists_mirrors {nodes : List Node} {es : List Event}
    (h : SameSizes location other) (hw : Writes location nodes es) :
    ∃ es', Writes other nodes es' ∧ List.Forall₂ (Event.Mirrors location other) es es' := by
  have hw' : Writes other nodes (es.map (Event.rewrite fun l _ => l.textFrom other)) := by
    refine hw.rewrite fun l _ => ?_
    rcases present_cases (Leaf.map_isSome_render h l) with
      ⟨e, hl, hl'⟩ | ⟨hl, hl'⟩ | ⟨w, w', hl, hl'⟩ <;> rw [Leaf.textFrom, hl, hl'] <;> rfl
  refine ⟨_, hw', List.forall₂_map_right_iff.2 (List.forall₂_same.2 fun e he => ?_)⟩
  cases e with
  | leaf l w =>
    exact .leaf (Leaf.mirrors_of_render h (hw.mem_leaf he).2
      (hw'.mem_leaf (List.mem_map_of_mem he)).2)
  | omitted body => exact .omitted

/-! ## Formatters -/

/-- The sign of a component is isolated: turning the signs of any finite components, a location is
still written, or refused with an error of the same kind; and if it is written, then with the same
leaves, whose texts are the same but for marks and for the minus signs of signed fields. -/
theorem format_mirrored (f : Formatter) {location : Location}
    (hfin : ∀ axis x, location.component axis = some x → x.isFinite = true)
    (turned : Axis → Bool) :
    (∃ e e', f.format location = .error e ∧ f.format (location.mirrored turned) = .error e' ∧
      e.label = e'.label) ∨
    ∃ es es', Writes location f.body es ∧ Writes (location.mirrored turned) f.body es' ∧
      f.format location = .ok (textOf es) ∧
      f.format (location.mirrored turned) = .ok (textOf es') ∧
      List.Forall₂ (Event.Mirrors location (location.mirrored turned)) es es' := by
  have h := sameSizes_mirrored hfin turned
  generalize location.mirrored turned = other at h ⊢
  have hpresent : (renderAll other f.body).map Option.isSome =
      (renderAll location f.body).map Option.isSome :=
    map_isSome_renderAll_congr fun l _ => Leaf.map_isSome_render h l
  rcases present_cases hpresent with ⟨e, hr, hr'⟩ | ⟨hr, hr'⟩ | ⟨t, t', hr, hr'⟩
  · exact .inl ⟨e, e, format_of_renderAll_error hr, format_of_renderAll_error hr', rfl⟩
  · exact .inl ⟨_, _, format_of_renderAll_none hr, format_of_renderAll_none hr', rfl⟩
  · obtain ⟨es, hw, -⟩ := exists_writes hr
    obtain ⟨es', hw', hmirrors⟩ := hw.exists_mirrors h
    exact .inr ⟨es, es', hw, hw', format_eq_ok_iff.2 ⟨es, hw, rfl⟩,
      format_eq_ok_iff.2 ⟨es', hw', rfl⟩, hmirrors⟩

/-- All components below zero, the longitude by less than its fraction digits show. -/
def belowZero : Location :=
  ⟨some (.ofRatio true 25 2), some (.ofRatio true 1 2500), some (.ofRatio true 7 1)⟩

/-- The longitude is rounded to zero, and is written without a minus sign either way. -/
theorem format_mirrored_below : ∃ f, Formatter.ofPattern (Text.lit "DD MM X l.lll[ E]") = .ok f ∧
    f.format belowZero = .ok (Text.lit "12 30 S 0.000 -7") ∧
    f.format (belowZero.mirrored fun _ => true) = .ok (Text.lit "12 30 N 0.000 7") ∧
    (∀ axis x, belowZero.component axis = some x → x.isFinite = true) ∧
    ∃ es es', Writes belowZero f.body es ∧ Writes (belowZero.mirrored fun _ => true) f.body es' ∧
      textOf es = Text.lit "12 30 S 0.000 -7" ∧ textOf es' = Text.lit "12 30 N 0.000 7" ∧
      List.Forall₂ (Event.Mirrors belowZero (belowZero.mirrored fun _ => true)) es es' := by
  obtain ⟨f, hf, ht, ht'⟩ : ∃ f, Formatter.ofPattern (Text.lit "DD MM X l.lll[ E]") = .ok f ∧
      f.format belowZero = .ok (Text.lit "12 30 S 0.000 -7") ∧
      f.format (belowZero.mirrored fun _ => true) = .ok (Text.lit "12 30 N 0.000 7") := by
    decide +kernel
  have hfin : ∀ axis x, belowZero.component axis = some x → x.isFinite = true := by
    intro axis x hx
    cases axis <;>
    · rw [← Option.some.inj hx]
      decide +kernel
  refine ⟨f, hf, ht, ht', hfin, ?_⟩
  rcases format_mirrored f hfin fun _ => true with
    ⟨e, _, he, -⟩ | ⟨es, es', hw, hw', htext, htext', hmirrors⟩
  · rw [ht] at he
    cases he
  · rw [ht] at htext
    rw [ht'] at htext'
    exact ⟨es, es', hw, hw', (Except.ok.inj htext).symm, (Except.ok.inj htext').symm, hmirrors⟩

end GeoPattern
