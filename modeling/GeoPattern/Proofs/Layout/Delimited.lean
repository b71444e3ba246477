/-
Patterns whose texts can be taken apart again. In a delimited pattern an optional group is the last
node of its sequence, so that a group that is left out is looked for at the end of the text, and
behind a field there is something that ends its digits. The induction goes along the events of
writing, with the text of what is still to come as the rest that the reading sees.
Main statements: `reads_of_writes`, `unambiguous_of_reads`.
-/
import GeoPattern.Proofs.Layout.Leaf
import GeoPattern.Proofs.Number.Rendering
import GeoPattern.Proofs.Pattern.Spelling

namespace GeoPattern

open Node Event

/-! ## Delimited patterns -/

namespace Node

mutual

/-- Every group inside of a node is the last node of the sequence it stands in. -/
def trailing : Node → Bool
  | .leaf _ => true
  | .group body | .sequence body => trailingAll body

def trailingAll : List Node → Bool
  | [] => true
  | .group body :: rest => trailingAll body && rest.isEmpty
  | node :: rest => trailing node && trailingAll rest

end

end Node

/-- What ends the digits of a field, if it is the next leaf: a sign, a literal that does not start
with a digit, and for a bounded field another field. A field may be the last leaf. -/
def Field.endedBy (f : Field) : Option Leaf → Bool
  | none | some (.sign _) => true
  | some (.literal t) => !t.head?.any isDigit
  | some (.field _) => f.bounded

/-- Every field among leaves is ended by the leaf behind it. -/
def Leaf.delimited : List Leaf → Bool
  | [] => true
  | .field f :: rest => f.endedBy rest.head? && delimited rest
  | _ :: rest => delimited rest

/-- A tree is delimited if its groups stand at the end and its fields are ended. -/
structure Node.Delimited (body : List Node) : Prop where
  trailing : trailingAll body = true
  fields : Leaf.delimited (leavesOf body) = true

instance (body : List Node) : Decidable (Delimited body) :=
  decidable_of_iff (trailingAll body = true ∧ Leaf.delimited (leavesOf body) = true)
    ⟨fun h => ⟨h.1, h.2⟩, fun h => ⟨h.1, h.2⟩⟩

/-! ## What compiled trees are like -/

theorem literal_mem_symbolsOf {nodes : List Node} {t : Text}
    (h : .literal t ∈ leavesOf nodes) : .literal t ∈ symbolsOf nodes := by
  induction nodes using forest_induction with
  | nil => cases h
  | leaf l rest ih =>
    rw [leavesOf, leaves, List.singleton_append] at h
    rw [symbolsOf, List.mem_append]
    rcases List.mem_cons.1 h with rfl | h
    · exact .inl List.mem_cons_self
    · exact .inr (ih h)
  | group body rest ihb ih =>
    rw [leavesOf, leaves, List.mem_append] at h
    rw [symbolsOf, symbols, List.mem_append]
    rcases h with h | h
    · exact .inl (List.mem_cons_of_mem _ (List.mem_append_left _ (ihb h)))
    · exact .inr (ih h)
  | sequence body rest ihb ih =>
    rw [leavesOf, leaves, List.mem_append] at h
    rw [symbolsOf, symbols, List.mem_append]
    exact h.imp ihb ih

theorem Symbol.Separated.literal_ne_nil {symbols : List Symbol} (h : Separated symbols) {t : Text}
    (ht : .literal t ∈ symbols) : t ≠ [] := by
  induction symbols with
  | nil => cases ht
  | cons symbol rest ih =>
    rcases List.mem_cons.1 ht with rfl | ht
    · exact (h.1 t rfl).1
    · exact ih h.2 ht

/-- A compiled tree has no empty literal, and no nesting but that of its groups. -/
theorem bracketed_of_compile {pattern : Text} {body : List Node}
    (h : compile pattern = .ok body) :
    Bracketed body ∧ ∀ l ∈ leavesOf body, l ≠ .literal [] := by
  obtain ⟨tokens, ht, ha, -⟩ := compile_eq_ok_iff.1 h
  refine ⟨bracketed_assemble (by simp) .nil ha, ?_⟩
  rintro l hl rfl
  obtain ⟨gs, -, hg⟩ := tokenize_eq_ok_iff.1 ht
  have hm := symbolsOf_of_assemble ha
  have hmem := literal_mem_symbolsOf hl
  rw [hm] at hmem
  exact (Token.separated_group hg).literal_ne_nil hmem rfl

/-! ## The text behind a leaf -/

section Writes

variable {location : Location} {nodes : List Node} {es : List Event}

/-- A text starts with the text of the first leaf, unless it is empty. -/
theorem Writes.textOf_eq_nil_or (h : Writes location nodes es) (ht : trailingAll nodes = true)
    (hb : Bracketed nodes) : textOf es = [] ∨ ∃ l w more, (leavesOf nodes).head? = some l ∧
      l.render location = .ok (some w) ∧ textOf es = w ++ more := by
  induction h with
  | nil => exact .inl rfl
  | @leaf l w rest es hl _ _ => exact .inr ⟨l, w, textOf es, rfl, hl, rfl⟩
  | @taken body rest es es' hw hr ihb ih =>
    rw [trailingAll, Bool.and_eq_true, List.isEmpty_iff] at ht
    obtain ⟨ht, rfl⟩ := ht
    cases hr
    cases hb with
    | group hbody hrest =>
      rw [List.append_nil, leavesOf, leavesOf, List.append_nil, leaves]
      exact ihb ht hbody
  | omitted _ hr ih =>
    rw [trailingAll, Bool.and_eq_true, List.isEmpty_iff] at ht
    obtain ⟨ht, rfl⟩ := ht
    cases hr
    exact .inl rfl
  | sequence => cases hb

/-- Behind a field that is not bounded the text goes on with something that is no digit. -/
theorem Writes.stopsDigits (h : Writes location nodes es) (ht : trailingAll nodes = true)
    (hb : Bracketed nodes) (hne : ∀ l ∈ leavesOf nodes, l ≠ .literal []) {f : Field}
    (he : f.endedBy (leavesOf nodes).head? = true) (hf : f.bounded = false) :
    StopsDigits (textOf es) := by
  rcases h.textOf_eq_nil_or ht hb with h0 | ⟨l, w, more, hl, hw, htext⟩
  · rw [h0]
    exact stopsDigits_nil
  rw [htext]
  rw [hl] at he
  cases l with
  | field g =>
    rw [Field.endedBy, hf] at he
    cases he
  | sign mark =>
    obtain ⟨raw, -, rfl⟩ := Leaf.render_sign hw
    refine stopsDigits_cons ?_ _
    split
    · exact Leaf.isDigit_positive mark
    · exact Leaf.isDigit_negative mark
  | literal t =>
    cases hw
    cases w with
    | nil => exact absurd rfl (hne _ (List.mem_of_head? hl))
    | cons c w =>
      refine stopsDigits_cons ?_ _
      simpa [Field.endedBy] using he

/-- A group that is left out starts with a leaf; any other node gives a text even if nothing is
left of it. -/
theorem exists_leaf_of_renderAll (hr : renderAll location nodes = .ok none)
    (ht : trailingAll nodes = true) (hb : Bracketed nodes) :
    ∃ l rest, nodes = .leaf l :: rest := by
  cases hb with
  | nil => cases hr
  | @leaf l rest => exact ⟨l, rest, rfl⟩
  | @group body rest hbody hrest =>
    rw [trailingAll, Bool.and_eq_true, List.isEmpty_iff] at ht
    obtain ⟨-, rfl⟩ := ht
    rw [renderAll, Node.render] at hr
    rcases hbody' : renderAll location body with e | a
    · rw [hbody'] at hr; cases hr
    · rw [hbody'] at hr; cases hr

/-! ## Reading what was written -/

/-- The texts of the fields have the widths that their fields read. -/
def Fitting (es : List Event) : Prop := ∀ l w, .leaf l w ∈ es → l.Fits w

/-- No bounded field can take digits from behind its text: it has all of its fraction digits, or
there is no digit. -/
def Unambiguous (es : List Event) : Prop :=
  ∀ front f w more, es = front ++ .leaf (.field f) w :: more → f.bounded = true →
    Leaf.EndsBefore (.field f) w (textOf more)

theorem fitting_nil : Fitting [] := nofun

theorem Fitting.cons {l : Leaf} {w : Text} (hl : l.Fits w) (h : Fitting es) :
    Fitting (.leaf l w :: es) := by
  intro l' w' hm
  rcases List.mem_cons.1 hm with he | hm
  · cases he
    exact hl
  · exact h l' w' hm

theorem Fitting.omitted {body : List Node} (h : Fitting es) : Fitting (.omitted body :: es) :=
  fun l w hm => h l w ((List.mem_cons.1 hm).resolve_left nofun)

theorem Fitting.tail {e : Event} (h : Fitting (e :: es)) : Fitting es :=
  fun l w hl => h l w (List.mem_cons_of_mem _ hl)

theorem Unambiguous.tail {e : Event} (h : Unambiguous (e :: es)) : Unambiguous es :=
  fun front f w more he hb => h (e :: front) f w more (by rw [he]; rfl) hb

/-- What was written for a delimited sequence is read back with the same events, from any position
and into any draft. -/
theorem reads_of_writes (h : Writes location nodes es) (ht : trailingAll nodes = true)
    (hd : Leaf.delimited (leavesOf nodes) = true) (hb : Bracketed nodes)
    (hne : ∀ l ∈ leavesOf nodes, l ≠ .literal []) (hfit : Fitting es) (hu : Unambiguous es)
    (before : Text) (failure : Option Failure) (draft : Draft) :
    Reads (before ++ textOf es) ⟨⟨before.length, failure⟩, draft⟩ nodes es
      ⟨⟨(before ++ textOf es).length, failure⟩, draftFrom draft es⟩ := by
  induction h generalizing before draft with
  | nil => simpa [draftFrom] using Reads.nil
  | @leaf l w rest es hl hw ih =>
    cases hb with
    | leaf hb =>
    -- an unbounded field is ended by the next leaf, a bounded one by the hypothesis on the events
    have hends : Leaf.EndsBefore l w (textOf es) := by
      cases l with
      | field f =>
        rcases hf : f.bounded with - | -
        · rw [leavesOf, leaves, List.singleton_append, Leaf.delimited, Bool.and_eq_true] at hd
          exact .inr (hw.stopsDigits ht hb (fun l hl => hne l (List.mem_cons_of_mem _ hl)) hd.1 hf)
        · exact hu [] f w es rfl hf
      | _ => trivial
    have hd' : Leaf.delimited (leavesOf rest) = true := by
      rw [leavesOf, leaves, List.singleton_append] at hd
      cases l with
      | field f => rw [Leaf.delimited, Bool.and_eq_true] at hd; exact hd.2
      | _ => exact hd
    have hread : l.readAt (before ++ (w ++ textOf es)) before.length
        = .ok (w.length, l.meaning w) :=
      Leaf.readAt_render hl (hfit l w List.mem_cons_self) hends
    have := ih ht hd' hb (fun l hl => hne l (List.mem_cons_of_mem _ hl)) hfit.tail hu.tail
      (before ++ w) (draft.accept (l.meaning w))
    rw [List.append_assoc, List.length_append] at this
    refine .leaf (Leaf.from?_append before _) hread ?_
    simpa [Cursor.advance, draftFrom, Event.text, Event.meaning] using this
  | @taken body rest es es' hw hr ihb ih =>
    rw [trailingAll, Bool.and_eq_true, List.isEmpty_iff] at ht
    obtain ⟨ht, rfl⟩ := ht
    cases hr
    cases hb with
    | group hb _ =>
    rw [leavesOf, leavesOf, List.append_nil, leaves] at hd hne
    rw [List.append_nil] at hfit hu
    have := ihb ht hd hb hne hfit hu before draft
    have hnil {t : Text} {state : ReadState} : Reads t state [] [] state := .nil
    simpa using Reads.taken this hnil
  | @omitted body rest es hbody hr ih =>
    rw [trailingAll, Bool.and_eq_true, List.isEmpty_iff] at ht
    obtain ⟨ht, rfl⟩ := ht
    cases hr
    cases hb with
    | group hb _ =>
    obtain ⟨l, more, rfl⟩ := exists_leaf_of_renderAll hbody ht hb
    -- the text is at its end, so that the first leaf of the group stops the reading
    have hl := Leaf.readAt_end (hne l (by simp [leavesOf, leaves])) before
    have hstop : readAll before ⟨⟨before.length, failure⟩, draft⟩ (.leaf l :: more)
        = .error ⟨.mismatch, ⟨Cursor.fail ⟨before.length, failure⟩ l.cause, draft⟩⟩ := by
      rw [readAll, Node.read, ReadState.step, hl]
    refine .omitted (by simpa [Event.text] using hstop) ?_
    simpa [Event.text, draftFrom, Event.meaning, Draft.accept] using Reads.nil
  | sequence => cases hb

/-- If every leaf is read from just its own text, no bounded field could take more. -/
theorem unambiguous_of_reads {state after : ReadState} {before : Text}
    (hw : Writes location nodes es) (hfit : Fitting es)
    (hindex : state.cursor.index = before.length)
    (h : Reads (before ++ textOf es) state nodes es after) : Unambiguous es := by
  intro front f w more he hb
  have hmem : .leaf (.field f) w ∈ es := by rw [he]; simp
  have hread := h.readAt_eq he
  have hpos : state.cursor.index + (textOf front).length
      = ((before ++ textOf front).length : ℕ) := by
    rw [hindex, List.length_append]
    push_cast
    rfl
  have htext : before ++ textOf es = (before ++ textOf front) ++ (w ++ textOf more) := by
    rw [he]
    simp [Event.text]
  rw [hpos, htext] at hread
  exact Leaf.endsBefore_of_readAt (hw.mem_leaf hmem).2 (hfit _ w hmem) hb hread

end Writes

/-- With as many fraction digits as numbers can have, no text is ambiguous. -/
theorem unambiguous_of_fractionDigits_le {location : Location} {nodes : List Node}
    {es : List Event} (hw : Writes location nodes es)
    (h : ∀ f, .field f ∈ leavesOf nodes → f.bounded = true →
      f.specifier.fractionDigits ≤ Decimal.finestPlaces) : Unambiguous es := by
  intro front f w more he hb
  obtain ⟨hmem, hr⟩ := hw.mem_leaf (l := .field f) (w := w) (by rw [he]; simp)
  obtain ⟨raw, negative, m, -, -, -, hp⟩ := Leaf.prints_of_render hr
  have := h f hmem hb
  exact .inl ⟨hb, by rw [hp.fraction]; omega⟩

/-! ## Formatting and parsing -/

/-- Format and parse agree on every delimited pattern: a text in which the bounded fields have just
their integer digits is read back leaf by leaf and to its end, with every group that was left out
rolled back, exactly if no bounded field is short of fraction digits in front of a digit. That needs
a bounded field with more than 1000026 of them. -/
theorem parse_format {pattern : Text} {f : Formatter} (hf : Formatter.ofPattern pattern = .ok f)
    (hd : Delimited f.body) {location : Location} {text : Text}
    (ht : f.format location = .ok text) :
    ∃ es, Writes location f.body es ∧ textOf es = text ∧
      (Fitting es →
        (Reads text ⟨.start 0, .empty⟩ f.body es ⟨.start text.length, draftOf es⟩ ∧
          f.parse text = .ok (draftOf es).build ↔ Unambiguous es)) ∧
      ((∀ g, .field g ∈ leavesOf f.body → g.bounded = true →
        g.specifier.fractionDigits ≤ Decimal.finestPlaces) → Unambiguous es) := by
  obtain ⟨es, hes, rfl⟩ := format_eq_ok_iff.1 ht
  obtain ⟨hb, hne⟩ := bracketed_of_compile (ofPattern_eq_ok_iff.1 hf).1
  refine ⟨es, hes, rfl, fun hfit => ⟨fun h => ?_, fun hu => ?_⟩,
    unambiguous_of_fractionDigits_le hes⟩
  · exact unambiguous_of_reads hes hfit (show _ = (([] : Text).length : ℤ) from rfl) h.1
  · have h : Reads (textOf es) ⟨.start 0, .empty⟩ f.body es
        ⟨.start (textOf es).length, draftOf es⟩ :=
      reads_of_writes hes hd.trailing hd.fields hb hne hfit hu [] none .empty
    exact ⟨h, h.parse_eq⟩

def degreesField : Field := ⟨.whole .degreeOfLatitude 1, true, some ⟨.minute, 0⟩⟩

def minutesField : Field := ⟨.whole .minuteOfLatitude 1, false, some ⟨.minute, 0⟩⟩

def elevationField : Field := ⟨.whole .elevation 0, false, none⟩

/-- An elevation, behind a space. -/
def elevationGroup : List Node := [.leaf (.literal (Text.lit " ")), .leaf (.field elevationField)]

/-- What `DDMM[ E]` is compiled to. -/
def elevationOptional : List Node :=
  [.leaf (.field degreesField), .leaf (.field minutesField), .group elevationGroup]

/-- What is written for a latitude alone. -/
def elevationOmitted : List Event :=
  [.leaf (.field degreesField) (Text.lit "12"), .leaf (.field minutesField) (Text.lit "30"),
    .omitted elevationGroup]

/-- A latitude alone leaves the group for the elevation out, and is read back. -/
theorem parse_format_latitude :
    ∃ f es, Formatter.ofPattern (Text.lit "DDMM[ E]") = .ok f ∧ Delimited f.body ∧
      f.format (.ofLatitude (.ofRatio false 25 2)) = .ok (Text.lit "1230") ∧
      Writes (.ofLatitude (.ofRatio false 25 2)) f.body es ∧ textOf es = Text.lit "1230" ∧
      Fitting es ∧ Unambiguous es ∧
      Reads (Text.lit "1230") ⟨.start 0, .empty⟩ f.body es ⟨.start 4, draftOf es⟩ ∧
      f.parse (Text.lit "1230") = .ok (.ofLatitude (.ofRatio false 25 2)) := by
  obtain ⟨f, hf, hbody⟩ : ∃ f, Formatter.ofPattern (Text.lit "DDMM[ E]") = .ok f ∧
      f.body = elevationOptional :=
    ⟨⟨_, elevationOptional⟩, ofPattern_eq_ok_iff.2 ⟨by decide +kernel, rfl⟩, rfl⟩
  have hd : Delimited f.body := by
    rw [hbody]
    decide
  have hwrites : Writes (.ofLatitude (.ofRatio false 25 2)) f.body elevationOmitted := by
    rw [hbody]
    exact .leaf (by decide +kernel) (.leaf (by decide +kernel) (.omitted (by decide +kernel) .nil))
  have ht : f.format (.ofLatitude (.ofRatio false 25 2)) = .ok (Text.lit "1230") :=
    format_eq_ok_iff.2 ⟨_, hwrites, rfl⟩
  have hfit : Fitting elevationOmitted := .cons (fun _ => rfl) (.cons nofun (.omitted fitting_nil))
  obtain ⟨es, hes, htext, hreads, hplaces⟩ := parse_format hf hd ht
  obtain rfl := hes.unique hwrites
  have hu : Unambiguous elevationOmitted := by
    refine hplaces fun g hg _ => ?_
    have hleaves : leavesOf f.body =
        [.field degreesField, .field minutesField, .literal (Text.lit " "), .field elevationField] := by
      rw [hbody]
      rfl
    rw [hleaves] at hg
    simp only [List.mem_cons, List.not_mem_nil, Leaf.field.injEq, reduceCtorEq, or_false,
      false_or] at hg
    rcases hg with rfl | rfl | rfl <;> decide
  obtain ⟨hread, hparse⟩ := (hreads hfit).2 hu
  have hbuild : (draftOf elevationOmitted).build = .ofLatitude (.ofRatio false 25 2) := by
    decide +kernel
  rw [hbuild] at hparse
  exact ⟨f, _, hf, hd, ht, hes, htext, hfit, hu, hread, hparse⟩

/-! ## A field that is short of fraction digits -/

/-- A latitude with `places + 1` fraction digits, and the whole degrees of a longitude at once
behind it. -/
def overlongPattern (places : ℕ) : Text :=
  Text.lit "DD." ++ List.replicate (places + 1) (.char 'D') ++ Text.lit "ddd"

def overlongField (places : ℕ) : Field where
  specifier := .fractional .degreeOfLatitude 1 .point places
  bounded := true
  resolution := some ⟨.degree, (places + 1 : ℕ)⟩

def followingField : Field where
  specifier := .whole .degreeOfLongitude 2
  bounded := false
  resolution := some ⟨.degree, (0 : ℕ)⟩

/-- What the pattern is compiled to. -/
def overlongBody (places : ℕ) : List Node :=
  [.leaf (.field (overlongField places)), .leaf (.field followingField)]

theorem compile_overlongPattern (places : ℕ) :
    compile (overlongPattern places) = .ok (overlongBody places) := by
  have hd : Symbol.Distinct [.field (.fractional .degreeOfLatitude 1 .point places),
      .field (.whole .degreeOfLongitude 2)] := by
    constructor
    · simp [Symbol.Separated]
    · simp [Symbol.specifiers, Specifier.fractional, Specifier.whole]
  obtain ⟨tokens, ht, hm⟩ := tokenize_spelling hd
  have hspell : [Symbol.field (.fractional .degreeOfLatitude 1 .point places),
      .field (.whole .degreeOfLongitude 2)].flatMap Symbol.spelling = overlongPattern places := by
    simp [Symbol.spelling, Symbol.text, Specifier.spelling, Specifier.spelledWith,
      Specifier.fractional, Specifier.whole, overlongPattern, Text.lit, Quantity.letter,
      Separator.symbol, List.replicate]
  rw [hspell] at ht
  obtain ⟨⟨_, p⟩, more, rfl, rfl, hm'⟩ := List.map_eq_cons_iff.1 hm
  obtain ⟨⟨_, q⟩, last, rfl, rfl, hm''⟩ := List.map_eq_cons_iff.1 hm'
  obtain rfl := List.map_eq_nil_iff.1 hm''
  exact compile_eq_ok_iff.2 ⟨_, ht, rfl, rfl⟩

/-- The latitude zero is written with all the fraction digits that numbers have, and no more. -/
theorem render_overlong {places : ℕ} (hle : places + 1 ≤ Decimal.shiftLimit) {location : Location}
    (hz : location.latitude = some .zero) :
    ∃ w, (Leaf.field (overlongField places)).render location = .ok (some w) ∧
      (overlongField places).specifier.Prints false 0 w := by
  have hvalue : (overlongField places).value .zero = .ok .zero := by
    unfold Field.value Field.unsignedValue
    simp [overlongField, Specifier.fractional, Quantity.isSigned, Quantity.unit, Double.zero,
      Double.isFinite, Double.abs]
    omega
  obtain ⟨w, hw, hp⟩ :=
    Specifier.exists_render_zero (s := (overlongField places).specifier) hle false
  exact ⟨w, Leaf.render_field_eq_ok_iff.2 ⟨.zero, .zero, hz, hvalue, hw⟩, hp⟩

/-- Digits of the longitude are taken for fraction digits of the latitude. -/
theorem not_reads_overlong {places : ℕ} (hlt : Decimal.finestPlaces < places + 1)
    (hle : places + 1 ≤ Decimal.shiftLimit) :
    ∃ f text es, Formatter.ofPattern (overlongPattern places) = .ok f ∧ Delimited f.body ∧
      f.format ⟨some .zero, some (.ofRatio false 123 1), none⟩ = .ok text ∧
      Writes ⟨some .zero, some (.ofRatio false 123 1), none⟩ f.body es ∧ textOf es = text ∧
      Fitting es ∧ ¬ ∃ after, Reads text ⟨.start 0, .empty⟩ f.body es after := by
  generalize hloc : (⟨some .zero, some (.ofRatio false 123 1), none⟩ : Location) = location
  obtain ⟨w, hw, hp⟩ := render_overlong hle (show location.latitude = some .zero by rw [← hloc])
  have hw' : (Leaf.field followingField).render location = .ok (some (Text.lit "123")) := by
    rw [← hloc]
    decide +kernel
  have hwrites : Writes location (overlongBody places) [.leaf (.field (overlongField places)) w,
      .leaf (.field followingField) (Text.lit "123")] := .leaf hw (.leaf hw' .nil)
  have hdigits : (overlongField places).specifier.fractionDigits = places + 1 := rfl
  have hfit : Fitting [.leaf (.field (overlongField places)) w,
      .leaf (.field followingField) (Text.lit "123")] := by
    refine .cons (fun _ => hp.length_integer ?_) (.cons nofun fitting_nil)
    rw [hdigits, toPlaces_zero]
    positivity
  refine ⟨⟨overlongPattern places, overlongBody places⟩, _, _,
    ofPattern_eq_ok_iff.2 ⟨compile_overlongPattern places, rfl⟩, ⟨rfl, rfl⟩,
    format_eq_ok_iff.2 ⟨_, hwrites, rfl⟩, hwrites, rfl, hfit, ?_⟩
  rintro ⟨after, h⟩
  have hu := unambiguous_of_reads hwrites hfit (show _ = (([] : Text).length : ℤ) from rfl) h
  rcases hu [] _ w _ rfl rfl with ⟨-, hlength⟩ | hstop
  · rw [hp.fraction, hdigits] at hlength
    omega
  · have := hstop '1' rfl
    exact absurd this (by decide)

/-- Above 1000026 fraction digits a bounded field writes fewer of them than it reads. -/
theorem parse_format_overlong :
    ∃ f text es, Formatter.ofPattern (overlongPattern 1000026) = .ok f ∧ Delimited f.body ∧
      f.format ⟨some .zero, some (.ofRatio false 123 1), none⟩ = .ok text ∧
      Writes ⟨some .zero, some (.ofRatio false 123 1), none⟩ f.body es ∧ textOf es = text ∧
      Fitting es ∧ ¬ ∃ after, Reads text ⟨.start 0, .empty⟩ f.body es after :=
  not_reads_overlong (by decide) (by decide)

end GeoPattern
