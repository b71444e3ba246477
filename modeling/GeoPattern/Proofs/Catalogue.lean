/-
The canned patterns are read back as they were written. Each of them is delimited, has room for the
degrees of a location in range, and recovers every axis that it names; so a text of such a location
is read to its end, and gives the components back, each rounded once to its finest field.
Main statements: `roundTrip_of_invertible`, `canned_round_trip`.
-/
import GeoPattern.Catalogue
import GeoPattern.Proofs.Layout.RoundTrip

namespace GeoPattern

open Node Event

/-! ## Invertible patterns -/

namespace Node

/-- A tree names an axis if it has a field for it. -/
def Names (body : List Node) (axis : Axis) : Prop := fieldsOf (leavesOf body) axis ≠ []

/-- A tree whose texts can be taken apart again, and from which every axis that it names can be read
back. -/
structure Invertible (body : List Node) : Prop where
  delimited : Delimited body
  together : ∀ axis, togetherAll axis body = true
  roomy : ∀ l ∈ leavesOf body, l.Roomy (leavesOf body)
  recoverable : ∀ axis, Names body axis → Recoverable (leavesOf body) axis

instance (body : List Node) (axis : Axis) : Decidable (Names body axis) :=
  inferInstanceAs (Decidable (_ ≠ _))

instance decidableForallAxis {p : Axis → Prop} [DecidablePred p] : Decidable (∀ axis, p axis) :=
  decidable_of_iff (p .latitude ∧ p .longitude ∧ p .elevation)
    ⟨fun ⟨hlat, hlon, hele⟩ axis => by cases axis <;> assumption, fun h => ⟨h _, h _, h _⟩⟩

instance (body : List Node) : Decidable (Invertible body) :=
  decidable_of_iff (Delimited body ∧ (∀ axis, togetherAll axis body = true) ∧
      (∀ l ∈ leavesOf body, l.Roomy (leavesOf body)) ∧
        ∀ axis, Names body axis → Recoverable (leavesOf body) axis)
    ⟨fun ⟨hd, ht, hr, hx⟩ => ⟨hd, ht, hr, hx⟩, fun ⟨hd, ht, hr, hx⟩ => ⟨hd, ht, hr, hx⟩⟩

end Node

/-- A location that was written with these events is read back: every leaf from its own text, just
the components that it has and the pattern names, and each of them up to half a unit of the last
fraction digit of its finest field. -/
structure RoundTrip (f : Formatter) (location : Location) (es : List Event) : Prop where
  writes : Writes location f.body es
  reads : Reads (textOf es) ⟨.start 0, .empty⟩ f.body es ⟨.start (textOf es).length, draftOf es⟩
  parse : f.parse (textOf es) = .ok (draftOf es).build
  present (axis : Axis) : ((draftOf es).build.component axis).isSome = true ↔
    (location.component axis).isSome = true ∧ Names f.body axis
  near {axis : Axis} {negative : Bool} {m : Magnitude} :
    location.component axis = some (.finite negative m) → Names f.body axis →
      ∃ s, IsFinest (leavesOf f.body) axis s ∧
        |readBack es axis * s.quantity.unit.perBase
          - signed negative (Angle.measure m s.quantity.unit)| ≤ 1 / 2 / 10 ^ s.fractionDigits

section Invertible

variable {pattern text : Text} {body : List Node} {location : Location} {es : List Event}

/-- The components that are read are those that the location has and the pattern names. -/
theorem isSome_component_iff (hw : Writes location body es) {axis : Axis}
    (ht : togetherAll axis body = true) :
    ((draftOf es).build.component axis).isSome = true ↔
      (location.component axis).isSome = true ∧ Names body axis := by
  constructor
  · intro hsome
    obtain ⟨f, w, he, rfl⟩ := (isSome_component_draftOf es axis).1 hsome
    obtain ⟨hf, hr⟩ := hw.mem_leaf he
    obtain ⟨raw, value, hraw, -⟩ := Leaf.render_field_eq_ok_iff.1 hr
    exact ⟨by rw [hraw]; rfl, List.ne_nil_of_mem (mem_fieldsOf.2 ⟨mem_specifiers hf, rfl⟩)⟩
  · rintro ⟨hx, hn⟩
    obtain ⟨s, hs⟩ := List.exists_mem_of_ne_nil _ hn
    exact isSome_component_of_mem hw ht hx hs

theorem roundTrip_of_invertible {f : Formatter} (hf : Formatter.ofPattern pattern = .ok f)
    (hinv : Invertible f.body) (hin : location.InRange) (ht : f.format location = .ok text) :
    ∃ es, textOf es = text ∧ RoundTrip f location es := by
  have hc := (ofPattern_eq_ok_iff.1 hf).1
  obtain ⟨hb, hne⟩ := bracketed_of_compile hc
  obtain ⟨es, hw, rfl⟩ := format_eq_ok_iff.1 ht
  -- bounded fields have fourteen fraction digits at most
  have hu : Unambiguous es := unambiguous_of_fractionDigits_le hw fun g hg hbounded => by
    obtain ⟨-, -, hplaces⟩ := hinv.roomy _ hg hbounded
    exact (hplaces _ (mem_fieldsOf.2 ⟨mem_specifiers hg, rfl⟩)).trans (by decide)
  have hreads : Reads (textOf es) ⟨.start 0, .empty⟩ f.body es
      ⟨.start (textOf es).length, draftOf es⟩ :=
    reads_of_writes hw hinv.delimited.trailing hinv.delimited.fields hb hne
      (fitting_of_roomy hc hw hin hinv.together hinv.roomy) hu [] none .empty
  exact ⟨es, rfl, hw, hreads, hreads.parse_eq, fun axis => isSome_component_iff hw (hinv.together _),
    fun hx hn => readBack_near hc hw hx (hinv.together _) (hinv.recoverable _ hn)⟩

end Invertible

/-! ## The canned patterns -/

theorem invertible_of_mem : ∀ entry ∈ Catalogue.entries,
    ∃ f, Formatter.ofPattern (Text.lit entry.2) = .ok f ∧ Invertible f.body := by
  decide +kernel

/-- Every canned pattern reads a location in range back from its text. -/
theorem canned_round_trip {entry : String × String} (h : entry ∈ Catalogue.entries) :
    ∃ f, Formatter.ofPattern (Text.lit entry.2) = .ok f ∧ ∀ location text,
      location.InRange → f.format location = .ok text →
        ∃ es, textOf es = text ∧ RoundTrip f location es := by
  obtain ⟨f, hf, hinv⟩ := invertible_of_mem entry h
  exact ⟨f, hf, fun location text hin ht => roundTrip_of_invertible hf hinv hin ht⟩

/-- Twelve degrees north and 98 degrees west are in range. -/
theorem inRange_whole :
    Location.InRange ⟨some (.ofRatio false 12 1), some (.ofRatio true 98 1), none⟩ where
  finite {axis x} hx := by
    cases axis with
    | latitude =>
      rw [← Option.some.inj hx]
      decide +kernel
    | longitude =>
      rw [← Option.some.inj hx]
      decide +kernel
    | elevation => cases hx
  latitude h := by
    obtain ⟨-, hm⟩ := Double.toRat_ofRatio Nat.one_pos (Option.some.inj h)
    rw [hm, Nat.cast_one, div_one, nearestDouble_natCast (by norm_num)]
    norm_num
  longitude h := by
    obtain ⟨-, hm⟩ := Double.toRat_ofRatio Nat.one_pos (Option.some.inj h)
    rw [hm, Nat.cast_one, div_one, nearestDouble_natCast (by norm_num)]
    norm_num

/-- The long form of ISO 6709 without an elevation. -/
theorem canned_round_trip_iso :
    ("ISO_LONG", "+DDMMSS.SS+dddmmss.ss[+H.HH'CRS']") ∈ Catalogue.entries ∧
    Location.InRange ⟨some (.ofRatio false 12 1), some (.ofRatio true 98 1), none⟩ ∧
    ∃ f, Formatter.ofPattern (Text.lit "+DDMMSS.SS+dddmmss.ss[+H.HH'CRS']") = .ok f ∧
      f.format ⟨some (.ofRatio false 12 1), some (.ofRatio true 98 1), none⟩
        = .ok (Text.lit "+120000.00-0980000.00") ∧
      ∃ es, textOf es = Text.lit "+120000.00-0980000.00" ∧
        RoundTrip f ⟨some (.ofRatio false 12 1), some (.ofRatio true 98 1), none⟩ es := by
  have hmem : ("ISO_LONG", "+DDMMSS.SS+dddmmss.ss[+H.HH'CRS']") ∈ Catalogue.entries := by decide
  obtain ⟨f, hf, hall⟩ := canned_round_trip hmem
  obtain ⟨g, hg, ht⟩ : ∃ g, Formatter.ofPattern (Text.lit "+DDMMSS.SS+dddmmss.ss[+H.HH'CRS']")
      = .ok g ∧ g.format ⟨some (.ofRatio false 12 1), some (.ofRatio true 98 1), none⟩
        = .ok (Text.lit "+120000.00-0980000.00") := by decide +kernel
  obtain rfl : f = g := Except.ok.inj (hf.symm.trans hg)
  exact ⟨hmem, inRange_whole, f, hf, ht, hall _ _ inRange_whole ht⟩

end GeoPattern
