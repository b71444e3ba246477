/-
The canned patterns write again what they read of their own texts. The text comes out as it was but
for the sign of zero: what was written for a component below zero that is rounded to zero is read as
zero, which the marks show as positive.
Main statements: `format_of_reread`, `canned_reread`.
-/
import GeoPattern.Proofs.Catalogue
import GeoPattern.Proofs.Layout.Rewrite

namespace GeoPattern

open Node Event

/-! ## Texts that settle -/

namespace Node

/-- A tree with a number for every sign, and up to six fraction digits. -/
structure Steady (body : List Node) : Prop where
  marks : ∀ l ∈ leavesOf body, ∀ axis, l.markAxis? = some axis → Names body axis
  places : ∀ s ∈ Leaf.specifiers (leavesOf body), s.fractionDigits ≤ 6

instance (body : List Node) : Decidable (Steady body) :=
  decidable_of_iff ((∀ l ∈ leavesOf body, ∀ axis, l.markAxis? = some axis → Names body axis) ∧
      ∀ s ∈ Leaf.specifiers (leavesOf body), s.fractionDigits ≤ 6)
    ⟨fun ⟨hm, hp⟩ => ⟨hm, hp⟩, fun ⟨hm, hp⟩ => ⟨hm, hp⟩⟩

end Node

section Reread

variable {pattern : Text} {body : List Node} {location : Location} {es : List Event}

/-- An axis that is recovered, and has a sign mark, has unsigned fields. -/
theorem marked_of_recoverable {leaves : List Leaf} {axis : Axis} (hr : Recoverable leaves axis)
    {l : Leaf} (hl : l ∈ leaves) (hm : l.markAxis? = some axis) : Marked leaves axis := by
  rcases hr with ⟨h, -, -⟩ | ⟨-, h | ⟨h, -⟩⟩
  · exact h
  · exact absurd hm (h.1 l hl)
  · exact h

/-- Every leaf is written again with its settled text. -/
theorem render_reread (hc : compile pattern = .ok body) (hinv : Invertible body)
    (hs : Steady body) (hin : location.InRange) (hw : Writes location body es) {l : Leaf}
    (hl : l ∈ leavesOf body) : l.render (draftOf es).build =
      (l.render location).map (·.map (settledText es l)) := by
  have hplaces (axis : Axis) : ∀ s ∈ fieldsOf (leavesOf body) axis, s.fractionDigits ≤ 6 :=
    fun s hs' => hs.places s (mem_fieldsOf.1 hs').1
  have habsent {axis : Axis} (hx : location.component axis = none) :
      (draftOf es).build.component axis = none := by
    rw [← Option.not_isSome_iff_eq_none, isSome_component_iff hw (hinv.together axis), hx]
    simp
  cases l with
  | literal t => rfl
  | field f =>
    have hid : ((Leaf.field f).render location).map (·.map (settledText es (.field f)))
        = (Leaf.field f).render location := by
      rcases (Leaf.field f).render location with e | - | w <;> rfl
    rw [hid]
    rcases hx : location.component f.specifier.quantity.axis with - | x
    · rw [Leaf.render, Leaf.render, habsent hx, hx]
    · obtain ⟨negative, m, rfl, -⟩ := hin.exists_finite hx
      have hn : Names body f.specifier.quantity.axis :=
        List.ne_nil_of_mem (mem_fieldsOf.2 ⟨mem_specifiers hl, rfl⟩)
      obtain ⟨m', h⟩ := exists_rewritten hc hw hin hx (hinv.together _) (hinv.recoverable _ hn)
        (hplaces _)
      exact h.fields f hl rfl
  | sign mark =>
    rcases hx : location.component mark.axis with - | x
    · unfold Leaf.render
      dsimp only
      rw [habsent hx, hx]
      rfl
    · obtain ⟨negative, m, rfl, -⟩ := hin.exists_finite hx
      have hr := hinv.recoverable _ (hs.marks _ hl mark.axis rfl)
      obtain ⟨m', h⟩ := exists_rewritten hc hw hin hx (hinv.together _) hr (hplaces _)
      exact h.render_sign hw (hinv.together _) hx (marked_of_recoverable hr hl rfl)

/-- What is read of a text is written with the settled signs. -/
theorem format_of_reread {f : Formatter} (hf : Formatter.ofPattern pattern = .ok f)
    (hinv : Invertible f.body) (hs : Steady f.body) (hin : location.InRange)
    (hw : Writes location f.body es) :
    f.format (draftOf es).build = .ok (textOf (settled es)) := by
  have hc := (ofPattern_eq_ok_iff.1 hf).1
  exact format_eq_ok_iff.2 ⟨_, hw.rewrite fun l hl => render_reread hc hinv hs hin hw hl, rfl⟩

/-- A text whose leaves keep their lengths is the same only if every leaf keeps its text. -/
theorem textOf_rewrite_eq_iff {change : Leaf → Text → Text}
    (h : ∀ l w, .leaf l w ∈ es → (change l w).length = w.length) :
    textOf (es.map (rewrite change)) = textOf es ↔ ∀ l w, .leaf l w ∈ es → change l w = w := by
  induction es with
  | nil => simp
  | cons e es ih =>
    have ih := ih fun l w he => h l w (List.mem_cons_of_mem _ he)
    rw [List.map_cons, textOf_cons, textOf_cons]
    cases e with
    | leaf l w =>
      constructor
      · intro htext l' w' he
        obtain ⟨hfirst, hrest⟩ := List.append_inj htext (h l w List.mem_cons_self)
        rcases List.mem_cons.1 he with he | he
        · cases he
          exact hfirst
        · exact ih.1 hrest l' w' he
      · intro hall
        have hfirst : (Event.rewrite change (.leaf l w)).text = w := hall l w List.mem_cons_self
        rw [hfirst, ih.2 fun l' w' he => hall l' w' (List.mem_cons_of_mem _ he)]
        rfl
    | omitted body =>
      refine ih.trans ⟨fun hall l w he => ?_, fun hall l w he => ?_⟩
      · rcases List.mem_cons.1 he with he | he
        · cases he
        · exact hall l w he
      · exact hall l w (List.mem_cons_of_mem _ he)

/-- The settled text is the one that was written, unless a mark shows a minus for zero. -/
theorem textOf_settled_eq_iff (hw : Writes location body es) :
    textOf (settled es) = textOf es ↔ ∀ mark w, .leaf (.sign mark) w ∈ es →
      amount es mark.axis = 0 → w = [mark.positive] := by
  have hlen : ∀ l w, .leaf l w ∈ es → (settledText es l w).length = w.length := by
    intro l w he
    cases l with
    | field f => rfl
    | literal t => rfl
    | sign mark =>
      obtain ⟨raw, -, rfl⟩ := Leaf.render_sign (hw.mem_leaf he).2
      by_cases hzero : amount es mark.axis = 0
      · rw [settledText, if_pos hzero]
        rfl
      · rw [settledText, if_neg hzero]
  rw [settled, textOf_rewrite_eq_iff hlen]
  constructor
  · intro h mark w he hzero
    have := h _ w he
    rw [settledText, if_pos hzero] at this
    exact this.symm
  · intro h l w he
    cases l with
    | field f => rfl
    | literal t => rfl
    | sign mark =>
      by_cases hzero : amount es mark.axis = 0
      · rw [settledText, if_pos hzero, h mark w he hzero]
      · rw [settledText, if_neg hzero]

end Reread

/-! ## The canned patterns -/

theorem steady_of_mem : ∀ entry ∈ Catalogue.entries,
    ∃ f, Formatter.ofPattern (Text.lit entry.2) = .ok f ∧ Invertible f.body ∧ Steady f.body := by
  decide +kernel

/-- A text that a canned pattern gives for a location in range is read, and what was read is written
with the same text, where each mark of a component that is printed as zero is positive. So it is the
same text exactly if no mark shows a minus for zero. -/
theorem canned_reread {entry : String × String} (h : entry ∈ Catalogue.entries) :
    ∃ f, Formatter.ofPattern (Text.lit entry.2) = .ok f ∧ ∀ location text,
      location.InRange → f.format location = .ok text →
        ∃ es location', Writes location f.body es ∧ textOf es = text ∧
          f.parse text = .ok location' ∧ f.format location' = .ok (textOf (settled es)) ∧
          (f.format location' = .ok text ↔ ∀ mark w, .leaf (.sign mark) w ∈ es →
            amount es mark.axis = 0 → w = [mark.positive]) := by
  obtain ⟨f, hf, hinv, hs⟩ := steady_of_mem entry h
  refine ⟨f, hf, fun location text hin ht => ?_⟩
  obtain ⟨es, rfl, hround⟩ := roundTrip_of_invertible hf hinv hin ht
  have hagain := format_of_reread hf hinv hs hin hround.writes
  refine ⟨es, _, hround.writes, rfl, hround.parse, hagain, ?_⟩
  rw [hagain, Except.ok.injEq]
  exact textOf_settled_eq_iff hround.writes

/-- The long form of ISO 6709 without an elevation: whole degrees are read back, and no sign stands
in front of zero. -/
theorem canned_reread_iso :
    ("ISO_LONG", "+DDMMSS.SS+dddmmss.ss[+H.HH'CRS']") ∈ Catalogue.entries ∧
    Location.InRange ⟨some (.ofRatio false 12 1), some (.ofRatio true 98 1), none⟩ ∧
    ∃ f es, Formatter.ofPattern (Text.lit "+DDMMSS.SS+dddmmss.ss[+H.HH'CRS']") = .ok f ∧
      f.format ⟨some (.ofRatio false 12 1), some (.ofRatio true 98 1), none⟩
        = .ok (Text.lit "+120000.00-0980000.00") ∧
      Writes ⟨some (.ofRatio false 12 1), some (.ofRatio true 98 1), none⟩ f.body es ∧
      textOf es = Text.lit "+120000.00-0980000.00" ∧
      f.parse (Text.lit "+120000.00-0980000.00")
        = .ok ⟨some (.ofRatio false 12 1), some (.ofRatio true 98 1), none⟩ ∧
      f.format ⟨some (.ofRatio false 12 1), some (.ofRatio true 98 1), none⟩
        = .ok (textOf (settled es)) ∧
      ∀ mark w, .leaf (.sign mark) w ∈ es → amount es mark.axis = 0 → w = [mark.positive] := by
  have hmem : ("ISO_LONG", "+DDMMSS.SS+dddmmss.ss[+H.HH'CRS']") ∈ Catalogue.entries := by decide
  obtain ⟨f, hf, hall⟩ := canned_reread hmem
  obtain ⟨g, hg, ht, hp⟩ : ∃ g, Formatter.ofPattern (Text.lit "+DDMMSS.SS+dddmmss.ss[+H.HH'CRS']")
      = .ok g ∧ g.format ⟨some (.ofRatio false 12 1), some (.ofRatio true 98 1), none⟩
        = .ok (Text.lit "+120000.00-0980000.00") ∧
      g.parse (Text.lit "+120000.00-0980000.00")
        = .ok ⟨some (.ofRatio false 12 1), some (.ofRatio true 98 1), none⟩ := by decide +kernel
  obtain rfl : f = g := Except.ok.inj (hf.symm.trans hg)
  obtain ⟨es, location', hes, htext, hp', hagain, hiff⟩ := hall _ _ inRange_whole ht
  obtain rfl := Except.ok.inj (hp.symm.trans hp')
  exact ⟨hmem, inRange_whole, f, es, hf, ht, hes, htext, hp, hagain, hiff.1 ht⟩

/-- A thousandth of a degree south is in range. -/
theorem inRange_thousandth : Location.InRange (.ofLatitude (.ofRatio true 1 1000)) where
  finite {axis x} hx := by
    cases axis with
    | latitude =>
      rw [← Option.some.inj hx]
      decide +kernel
    | longitude => cases hx
    | elevation => cases hx
  latitude h := by
    obtain ⟨-, hm⟩ := Double.toRat_ofRatio (by norm_num) (Option.some.inj h)
    have hround := (abs_le.1 (abs_nearestDouble_sub_le_of_lt (x := 1 / 1000) (by norm_num))).2
    rw [hm, Nat.cast_one]
    norm_num at hround ⊢
    linarith
  longitude h := by cases h

/-- It is written as minus zero with two fraction digits, which is read as zero and is written again
with a plus sign. -/
theorem reread_negative_zero :
    ¬ ∀ entry ∈ Catalogue.entries, ∀ f location text,
      Formatter.ofPattern (Text.lit entry.2) = .ok f → location.InRange →
        f.format location = .ok text →
          ∃ location', f.parse text = .ok location' ∧ f.format location' = .ok text := by
  intro h
  obtain ⟨f, hf, ht, hp, hagain⟩ : ∃ f, Formatter.ofPattern (Text.lit "+DD.DD") = .ok f ∧
      f.format (.ofLatitude (.ofRatio true 1 1000)) = .ok (Text.lit "-00.00") ∧
      f.parse (Text.lit "-00.00") = .ok (.ofLatitude (.ofRatio true 0 1)) ∧
      f.format (.ofLatitude (.ofRatio true 0 1)) = .ok (Text.lit "+00.00") := by
    decide +kernel
  have hmem : ("ISO_LAT_SHORT", "+DD.DD") ∈ Catalogue.entries := by decide
  obtain ⟨location', hp', ht'⟩ := h _ hmem f _ _ hf inRange_thousandth ht
  obtain rfl : Location.ofLatitude (.ofRatio true 0 1) = location' :=
    Except.ok.inj (hp.symm.trans hp')
  rw [hagain] at ht'
  exact absurd (Except.ok.inj ht') (by decide)

end GeoPattern
