/-
Writing and reading as one list of events: a leaf with its text, or an optional group that is left
out. `Writes` says which events a location gives, `Reads` that a text is read with the same events,
every leaf from its own text and with what that text says, and every group that was left out rolled
back.
Main statements: `format_eq_ok_iff`, `Reads.parse_eq`.
-/
import GeoPattern.Formatter
import GeoPattern.Proofs.Layout.Forest
import GeoPattern.Proofs.Number.Numeral

namespace GeoPattern

open Node

/-! ## Events -/

/-- What happens to a node, in writing as in reading. -/
inductive Event where
  /-- The leaf stands for the text. -/
  | leaf (leaf : Leaf) (text : Text)
  /-- The optional group with this body stands for nothing, since a part of it is missing. -/
  | omitted (body : List Node)

/-- What a text says that stands for a leaf: the number or the sign that is written there. -/
def Leaf.meaning (l : Leaf) (w : Text) : Contribution :=
  match l with
  | .field f => .number f.specifier.quantity (Numeral.ofText w).value
  | .sign mark => .sign mark.axis (if w = [mark.positive] then 1 else -1)
  | .literal _ => .nothing

namespace Event

def text : Event → Text
  | leaf _ w => w
  | omitted _ => []

/-- The text of a list of events. -/
def textOf (es : List Event) : Text := es.flatMap text

@[simp] theorem textOf_nil : textOf [] = [] := rfl

@[simp] theorem textOf_cons (e : Event) (es : List Event) :
    textOf (e :: es) = e.text ++ textOf es := rfl

@[simp] theorem textOf_append (a b : List Event) : textOf (a ++ b) = textOf a ++ textOf b :=
  List.flatMap_append

def meaning : Event → Contribution
  | leaf l w => l.meaning w
  | omitted _ => .nothing

/-- Takes what events say into a draft. -/
def draftFrom (draft : Draft) (es : List Event) : Draft :=
  es.foldl (fun draft e => draft.accept e.meaning) draft

/-- The draft of what events say. -/
def draftOf (es : List Event) : Draft := draftFrom .empty es

theorem draftFrom_append (draft : Draft) (a b : List Event) :
    draftFrom draft (a ++ b) = draftFrom (draftFrom draft a) b :=
  List.foldl_append

end Event

open Event

/-! ## Writing -/

/-- A location gives these events for a sequence. -/
inductive Writes (location : Location) : List Node → List Event → Prop
  | nil : Writes location [] []
  | leaf {l : Leaf} {w : Text} {rest : List Node} {es : List Event} :
      l.render location = .ok (some w) → Writes location rest es →
      Writes location (.leaf l :: rest) (.leaf l w :: es)
  | taken {body rest : List Node} {es es' : List Event} :
      Writes location body es → Writes location rest es' →
      Writes location (.group body :: rest) (es ++ es')
  | omitted {body rest : List Node} {es : List Event} :
      renderAll location body = .ok none → Writes location rest es →
      Writes location (.group body :: rest) (.omitted body :: es)
  | sequence {body rest : List Node} {es es' : List Event} :
      Writes location body es → Writes location rest es' →
      Writes location (.sequence body :: rest) (es ++ es')

variable {location : Location} {nodes : List Node} {es : List Event}

/-- A sequence is written from node to node, up to a part that is missing or refused. -/
theorem renderAll_cons (location : Location) (node : Node) (rest : List Node) :
    renderAll location (node :: rest) =
      match render location node with
      | .error e => .error e
      | .ok none => .ok none
      | .ok (some t) => (renderAll location rest).map (Option.map (t ++ ·)) := by
  rw [renderAll]
  rcases render location node with e | - | t
  · rfl
  · rfl
  · rcases renderAll location rest with e | - | t' <;> rfl

/-- A group is always written, if only as nothing. -/
theorem render_group (location : Location) (body : List Node) :
    render location (.group body) = (renderAll location body).map fun t => some (t.getD []) := by
  rw [render]
  rcases renderAll location body with e | t <;> rfl

theorem renderAll_cons_eq_ok_iff {node : Node} {rest : List Node} {t : Text} :
    renderAll location (node :: rest) = .ok (some t) ↔ ∃ a b,
      render location node = .ok (some a) ∧ renderAll location rest = .ok (some b) ∧
        t = a ++ b := by
  rw [renderAll_cons]
  rcases render location node with e | - | a
  · simp
  · simp
  · rcases renderAll location rest with e | - | b
    · simp [Except.map]
    · simp [Except.map]
    · simp [Except.map, eq_comm]

theorem renderAll_cons_of_some {node : Node} {rest : List Node} {t : Text} {tail : Option Text}
    (hn : render location node = .ok (some t)) (hr : renderAll location rest = .ok tail) :
    renderAll location (node :: rest) = .ok (tail.map (t ++ ·)) := by
  rw [renderAll_cons, hn, hr]
  rfl

theorem renderAll_cons_of_none {node : Node} {rest : List Node}
    (hn : render location node = .ok none) : renderAll location (node :: rest) = .ok none := by
  rw [renderAll_cons, hn]

/-- Where a sequence is missing, a node of it is. -/
theorem render_or_renderAll_eq_none {node : Node} {rest : List Node}
    (h : renderAll location (node :: rest) = .ok none) :
    render location node = .ok none ∨ renderAll location rest = .ok none := by
  rw [renderAll_cons] at h
  rcases hn : render location node with e | - | t
  · rw [hn] at h
    cases h
  · exact .inl rfl
  · rcases hr : renderAll location rest with e | - | t' <;> rw [hn, hr] at h <;> cases h
    exact .inr rfl

/-- Where a sequence is refused, a node of it is. -/
theorem render_or_renderAll_eq_error {node : Node} {rest : List Node} {e : FormatError}
    (h : renderAll location (node :: rest) = .error e) :
    render location node = .error e ∨ renderAll location rest = .error e := by
  rw [renderAll_cons] at h
  rcases hn : render location node with e' | - | t
  · rw [hn] at h
    exact .inl h
  · rw [hn] at h
    cases h
  · rcases hr : renderAll location rest with e' | t' <;> rw [hn, hr] at h <;> cases h
    exact .inr rfl

theorem render_group_of_renderAll {body : List Node} {text : Option Text}
    (h : renderAll location body = .ok text) :
    render location (.group body) = .ok (some (text.getD [])) := by
  rw [render_group, h]
  rfl

theorem render_group_eq_ok_iff {body : List Node} {t : Text} :
    render location (.group body) = .ok (some t) ↔ renderAll location body = .ok (some t) ∨
      renderAll location body = .ok none ∧ t = [] := by
  rw [render_group]
  rcases renderAll location body with e | - | a
  · simp [Except.map]
  · simp [Except.map, eq_comm]
  · simp [Except.map]

/-- The events of a sequence have its text. -/
theorem Writes.renderAll_eq (h : Writes location nodes es) :
    renderAll location nodes = .ok (some (textOf es)) := by
  induction h with
  | nil => rfl
  | leaf hl _ ih => exact renderAll_cons_eq_ok_iff.2 ⟨_, _, hl, ih, rfl⟩
  | taken _ _ ihb ih =>
    rw [textOf_append]
    exact renderAll_cons_eq_ok_iff.2 ⟨_, _, render_group_eq_ok_iff.2 (.inl ihb), ih, rfl⟩
  | omitted hb _ ih =>
    exact renderAll_cons_eq_ok_iff.2 ⟨_, _, render_group_eq_ok_iff.2 (.inr ⟨hb, rfl⟩), ih, rfl⟩
  | sequence _ _ ihb ih =>
    rw [textOf_append]
    exact renderAll_cons_eq_ok_iff.2 ⟨_, _, ihb, ih, rfl⟩

theorem exists_writes {t : Text} (h : renderAll location nodes = .ok (some t)) :
    ∃ es, Writes location nodes es ∧ textOf es = t := by
  induction nodes using forest_induction generalizing t with
  | nil => cases h; exact ⟨[], .nil, rfl⟩
  | leaf l rest ih =>
    obtain ⟨a, b, hl, hr, rfl⟩ := renderAll_cons_eq_ok_iff.1 h
    obtain ⟨es, hes, rfl⟩ := ih hr
    exact ⟨.leaf l a :: es, .leaf hl hes, rfl⟩
  | group body rest ihb ih =>
    obtain ⟨a, b, hg, hr, rfl⟩ := renderAll_cons_eq_ok_iff.1 h
    obtain ⟨es, hes, rfl⟩ := ih hr
    rcases render_group_eq_ok_iff.1 hg with hb | ⟨hb, rfl⟩
    · obtain ⟨es', hes', rfl⟩ := ihb hb
      exact ⟨es' ++ es, .taken hes' hes, textOf_append _ _⟩
    · exact ⟨.omitted body :: es, .omitted hb hes, rfl⟩
  | sequence body rest ihb ih =>
    obtain ⟨a, b, hb, hr, rfl⟩ := renderAll_cons_eq_ok_iff.1 h
    obtain ⟨es, hes, rfl⟩ := ih hr
    obtain ⟨es', hes', rfl⟩ := ihb hb
    exact ⟨es' ++ es, .sequence hes' hes, textOf_append _ _⟩

/-- A location is formatted exactly if there are events for it, whose text it gets. -/
theorem format_eq_ok_iff {f : Formatter} {t : Text} : f.format location = .ok t ↔
    ∃ es, Writes location f.body es ∧ textOf es = t := by
  have hr : f.format location = .ok t ↔ renderAll location f.body = .ok (some t) := by
    unfold Formatter.format
    rcases renderAll location f.body with e | a
    · exact ⟨nofun, nofun⟩
    · cases a with
      | none => exact ⟨nofun, nofun⟩
      | some a => simp [bind, Except.bind, pure, Except.pure]
  rw [hr]
  constructor
  · exact exists_writes
  · rintro ⟨es, hes, rfl⟩
    exact hes.renderAll_eq

/-- Every leaf among the events is one of the sequence, and is rendered to its text. -/
theorem Writes.mem_leaf (h : Writes location nodes es) {l : Leaf} {w : Text}
    (hm : .leaf l w ∈ es) : l ∈ leavesOf nodes ∧ l.render location = .ok (some w) := by
  induction h with
  | nil => cases hm
  | leaf hl _ ih =>
    rw [leavesOf, leaves, List.singleton_append]
    rcases List.mem_cons.1 hm with he | hm
    · cases he
      exact ⟨List.mem_cons_self, hl⟩
    · exact ⟨List.mem_cons_of_mem _ (ih hm).1, (ih hm).2⟩
  | taken _ _ ihb ih | sequence _ _ ihb ih =>
    rw [leavesOf, leaves, List.mem_append]
    rcases List.mem_append.1 hm with hm | hm
    · exact ⟨.inl (ihb hm).1, (ihb hm).2⟩
    · exact ⟨.inr (ih hm).1, (ih hm).2⟩
  | omitted _ _ ih =>
    rw [leavesOf, List.mem_append]
    rcases List.mem_cons.1 hm with he | hm
    · cases he
    · exact ⟨.inr (ih hm).1, (ih hm).2⟩

/-- Leaves in a row are written one after the other. -/
theorem writes_map_leaf {leaves : List Leaf} {texts : List Text}
    (h : List.Forall₂ (fun l w => l.render location = .ok (some w)) leaves texts) :
    Writes location (leaves.map .leaf) (List.zipWith .leaf leaves texts) := by
  induction h with
  | nil => exact .nil
  | cons hl _ ih => exact .leaf hl ih

/-- The events of a sequence are determined by the location. -/
theorem Writes.unique {es' : List Event} (h : Writes location nodes es)
    (h' : Writes location nodes es') : es = es' := by
  induction h generalizing es' with
  | nil => cases h'; rfl
  | leaf hl _ ih =>
    cases h' with
    | leaf hl' hr' =>
      rw [hl] at hl'
      cases hl'
      rw [ih hr']
  | taken hb _ ihb ih =>
    cases h' with
    | taken hb' hr' => rw [ihb hb', ih hr']
    | omitted hb' _ =>
      rw [hb.renderAll_eq] at hb'
      cases hb'
  | omitted hb _ ih =>
    cases h' with
    | taken hb' _ =>
      rw [hb'.renderAll_eq] at hb
      cases hb
    | omitted _ hr' => rw [ih hr']
  | sequence _ _ ihb ih =>
    cases h' with
    | sequence hb' hr' => rw [ihb hb', ih hr']

/-! ## Reading -/

/-- A sequence is read from a text with these events. Each leaf takes just the text of its event and
contributes what that text says; a group that is left out stops at a mismatch inside of it. -/
inductive Reads (text : Text) : ReadState → List Node → List Event → ReadState → Prop
  | nil {state : ReadState} : Reads text state [] [] state
  | leaf {state after : ReadState} {l : Leaf} {w behind : Text} {rest : List Node}
      {es : List Event} :
      text.from? state.cursor.index = some (w ++ behind) →
      l.readAt text state.cursor.index = .ok (w.length, l.meaning w) →
      Reads text ⟨state.cursor.advance w.length, state.draft.accept (l.meaning w)⟩ rest es after →
      Reads text state (.leaf l :: rest) (.leaf l w :: es) after
  | taken {state middle after : ReadState} {body rest : List Node} {es es' : List Event} :
      Reads text state body es middle → Reads text middle rest es' after →
      Reads text state (.group body :: rest) (es ++ es') after
  | omitted {state after stopped : ReadState} {body rest : List Node} {es : List Event} :
      readAll text state body = .error ⟨.mismatch, stopped⟩ → Reads text state rest es after →
      Reads text state (.group body :: rest) (.omitted body :: es) after
  | sequence {state middle after : ReadState} {body rest : List Node} {es es' : List Event} :
      Reads text state body es middle → Reads text middle rest es' after →
      Reads text state (.sequence body :: rest) (es ++ es') after

namespace Reads

variable {text : Text} {state after : ReadState}

/-- A reading with events is what the tree reads. -/
theorem readAll_eq (h : Reads text state nodes es after) :
    readAll text state nodes = .ok after := by
  induction h with
  | nil => rfl
  | leaf _ hl _ ih => rw [readAll, Node.read, ReadState.step, hl]; exact ih
  | taken _ _ ihb ih => rw [readAll, Node.read, ihb]; exact ih
  | omitted hb _ ih => rw [readAll, Node.read, hb]; exact ih
  | sequence _ _ ihb ih => rw [readAll, Node.read, ihb]; exact ih

/-- The cursor is moved behind the texts of the events, and the draft takes in what they say. -/
theorem after_eq (h : Reads text state nodes es after) :
    after = ⟨state.cursor.advance (textOf es).length, draftFrom state.draft es⟩ := by
  have advance_zero (c : Cursor) : c.advance 0 = c := by simp [Cursor.advance]
  have advance_add (c : Cursor) (a b : ℕ) :
      (c.advance a).advance b = c.advance ((a + b : ℕ) : ℤ) := by
    simp [Cursor.advance, add_assoc]
  induction h with
  | nil => simp [advance_zero, draftFrom]
  | leaf _ _ _ ih =>
    rw [ih, textOf_cons, List.length_append, ← advance_add]
    rfl
  | taken _ _ ihb ih | sequence _ _ ihb ih =>
    rw [ih, ihb, textOf_append, List.length_append, ← advance_add, draftFrom_append]
  | omitted _ _ ih => rw [ih]; rfl

/-- A leaf among the events takes its own text, behind the texts of the events in front of it. -/
theorem readAt_eq (h : Reads text state nodes es after) {front more : List Event} {l : Leaf}
    {w : Text} (he : es = front ++ .leaf l w :: more) :
    l.readAt text (state.cursor.index + (textOf front).length) = .ok (w.length, l.meaning w) := by
  induction h generalizing front more with
  | nil => simp at he
  | @leaf state _ l' w' _ _ es _ hl _ ih =>
    cases front with
    | nil =>
      cases he
      simpa using hl
    | cons e front =>
      cases he
      have := ih rfl
      simp only [Cursor.advance] at this
      simpa [add_assoc, Event.text] using this
  | @taken state middle _ _ _ es es' hb _ ihb ih | @sequence state middle _ _ _ es es' hb _ ihb ih =>
    -- the leaf stands behind the events of the group, or among them
    rcases List.append_eq_append_iff.1 he with ⟨a, rfl, ha⟩ | ⟨c, rfl, hc⟩
    · have := ih ha
      rw [hb.after_eq] at this
      simpa [Cursor.advance, add_assoc] using this
    · cases c with
      | nil =>
        have := ih (by simpa using hc.symm : es' = [] ++ .leaf l w :: more)
        rw [hb.after_eq] at this
        simpa [Cursor.advance] using this
      | cons e c =>
        cases hc
        exact ihb rfl
  | omitted _ _ ih =>
    cases front with
    | nil => cases he
    | cons e front =>
      cases he
      simpa [Event.text] using ih rfl

/-- A text that is read to its end from its beginning is parsed to what the events say. -/
theorem parse_eq {f : Formatter}
    (h : Reads text ⟨.start 0, .empty⟩ f.body es ⟨.start text.length, draftOf es⟩) :
    f.parse text = .ok (draftOf es).build := by
  have hr := h.readAll_eq
  have hat : f.parseAt text (.start 0) = (.ok (draftOf es).build, .start text.length) := by
    rw [Formatter.parseAt, if_neg (by simp [Cursor.start]), hr]
  rw [Formatter.parse, hat]
  simp [Cursor.start]

end Reads

end GeoPattern
