/-
The leaves that a reading commits to: those outside of groups that were left out, each with the text
that it took. The texts make up what was passed of the text, the contributions make the draft, and a
component of the draft is made by the leaves of its axis alone.
Main statements: `accounts_readingsFrom`, `component_acceptAll`.
-/
import GeoPattern.Proofs.Layout.Presence
import GeoPattern.Proofs.Layout.Splice
import GeoPattern.Proofs.Number.Sign

namespace GeoPattern

open Node

/-! ## Committed leaves -/

/-- A leaf with the text that it has taken, and what it has contributed. -/
structure Reading where
  leaf : Leaf
  text : Text
  contribution : Contribution

/-- The text of every reading tells what its leaf has contributed. -/
def Told (rs : List Reading) : Prop := ∀ r ∈ rs, r.leaf.Tells r.text r.contribution

theorem Told.head {r : Reading} {rs : List Reading} (h : Told (r :: rs)) :
    r.leaf.Tells r.text r.contribution := h r List.mem_cons_self

theorem Told.tail {r : Reading} {rs : List Reading} (h : Told (r :: rs)) : Told rs :=
  fun r hr => h r (List.mem_cons_of_mem _ hr)

theorem Told.filter {rs : List Reading} (h : Told rs) (p : Reading → Bool) : Told (rs.filter p) :=
  fun r hr => h r (List.mem_of_mem_filter hr)

/-- A field tells a number, which has no minus sign if the field is unsigned. -/
theorem Leaf.Tells.exists_number {f : Field} {w : Text} {c : Contribution}
    (h : (Leaf.field f).Tells w c) : ∃ x, c = .number f.specifier.quantity x ∧
      (f.specifier.quantity.isSigned = false → x.abs = x) := by
  obtain ⟨n, hn, -, -, rfl⟩ := h
  refine ⟨n.value, rfl, fun hs => Numeral.abs_value ?_⟩
  rcases hsign : n.sign with - | c
  · rfl
  · have := (hn.sign c hsign).1
    rw [hs] at this
    cases this

/-- Takes what readings contribute into a draft. -/
def Draft.acceptAll (draft : Draft) (rs : List Reading) : Draft :=
  rs.foldl (fun draft r => draft.accept r.contribution) draft

/-- What leaves read one after the other, up to the first one that is not read. -/
def readingsFrom (text : Text) (index : ℤ) : List Leaf → List Reading
  | [] => []
  | l :: rest =>
    match l.readAt text index with
    | .ok (count, c) =>
      ⟨l, (text.drop index.toNat).take count, c⟩ :: readingsFrom text (index + count) rest
    | .error _ => []

/-- The readings that a formatter commits to from a cursor on: those of the leaves outside of groups
that do not match. -/
def Formatter.readings (f : Formatter) (text : Text) (cursor : Cursor) : List Reading :=
  readingsFrom text cursor.index (splicedAll text ⟨cursor, .empty⟩ f.body)

/-- Readings account for what happens between two states: every text tells what its leaf has
contributed, the contributions make the draft, and the texts make up what was passed of the text. -/
structure Accounts (text : Text) (state after : ReadState) (rs : List Reading) : Prop where
  told : Told rs
  draft_eq : after.draft = state.draft.acceptAll rs
  drop_eq : text.drop state.cursor.index.toNat =
    rs.flatMap (·.text) ++ text.drop after.cursor.index.toNat

variable {text : Text} {state after : ReadState}

/-- Leaves that are all read are all accounted for. -/
theorem accounts_readingsFrom {leaves : List Leaf} (h0 : 0 ≤ state.cursor.index)
    (h : readAll text state (leaves.map .leaf) = .ok after) :
    (readingsFrom text state.cursor.index leaves).map (·.leaf) = leaves ∧
      Accounts text state after (readingsFrom text state.cursor.index leaves) := by
  induction leaves generalizing state with
  | nil =>
    cases h
    exact ⟨rfl, by simp [readingsFrom, Told], rfl, rfl⟩
  | cons l rest ih =>
    rw [List.map_cons, readAll_cons, Node.read] at h
    rcases step_cases text state l with ⟨count, c, hl, hs⟩ | ⟨-, hs⟩ | ⟨-, hs⟩ <;> rw [hs] at h
    rotate_left
    · cases h
    · cases h
    obtain ⟨w, behind, hrest, rfl, htells⟩ := Leaf.exists_tells_of_readAt h0 hl
    obtain ⟨hleaves, hrs⟩ := ih (by simp only [Cursor.advance]; omega) h
    obtain ⟨-, hdrop⟩ := Text.eq_drop_of_from? h0 hrest
    have hbehind : text.drop (state.cursor.index + w.length).toNat = behind := by
      rw [Int.toNat_add h0 (by omega), Int.toNat_natCast, ← List.drop_drop, ← hdrop,
        List.drop_left]
    rw [readingsFrom, hl]
    dsimp only
    rw [← hdrop, List.take_left]
    refine ⟨congrArg (l :: ·) hleaves, ?_, hrs.draft_eq, ?_⟩
    · intro r hr
      rcases List.mem_cons.1 hr with rfl | hr
      · exact htells
      · exact hrs.told r hr
    · have := hrs.drop_eq
      simp only [Cursor.advance, hbehind] at this
      rw [← hdrop, this, List.flatMap_cons, List.append_assoc]

/-! ## One axis -/

/-- The reading is of a leaf of an axis. -/
def Reading.isOn (axis : Axis) (r : Reading) : Bool := r.leaf.axis? == some axis

/-- What a component of an axis takes in of its own contributions. -/
def Component.receive (component : Component) : Contribution → Component
  | .nothing => component
  | .sign _ sign => { component with sign }
  | .number q x =>
    match q.unit with
    | .degree => component.add x
    | .minute => component.add (x.divNat 60)
    | .second => component.add (x.divNat 3600)
    | .meter => { component with size := some x }

def Component.receiveAll (component : Component) (rs : List Reading) : Component :=
  rs.foldl (fun component r => component.receive r.contribution) component

theorem Component.receiveAll_cons (component : Component) (r : Reading) (rs : List Reading) :
    component.receiveAll (r :: rs) = (component.receive r.contribution).receiveAll rs := rfl

namespace Reading

variable {r : Reading} {axis : Axis}

/-- A component hears the leaves of its axis, and no others. -/
theorem component_accept (hr : r.leaf.Tells r.text r.contribution) (draft : Draft) (axis : Axis) :
    (draft.accept r.contribution).component axis =
      if r.isOn axis then (draft.component axis).receive r.contribution
      else draft.component axis := by
  obtain ⟨l, w, c⟩ := r
  cases l with
  | field f =>
    obtain ⟨x, rfl, -⟩ := hr.exists_number
    simp only [isOn, Leaf.axis?, Draft.accept, Draft.take, Component.receive]
    by_cases h : f.specifier.quantity.axis = axis
    · subst h
      cases f.specifier.quantity.unit <;>
        simp [Draft.addDegrees, Draft.addMinutes, Draft.addSeconds, Draft.setSize]
    · cases f.specifier.quantity.unit <;>
        simp [Draft.addDegrees, Draft.addMinutes, Draft.addSeconds, Draft.setSize, h,
          Draft.component_modify_of_ne _ h]
  | sign mark =>
    by_cases h : mark.axis = axis
    · subst h
      obtain ⟨-, rfl⟩ | ⟨-, rfl⟩ := hr <;>
        simp [isOn, Leaf.axis?, Draft.accept, Draft.setSign, Component.receive]
    · obtain ⟨-, rfl⟩ | ⟨-, rfl⟩ := hr <;>
        simp [isOn, Leaf.axis?, Draft.accept, Draft.setSign, h, Draft.component_modify_of_ne _ h]
  | literal t =>
    obtain ⟨-, rfl⟩ := hr
    simp [isOn, Leaf.axis?, Draft.accept]

end Reading

theorem component_acceptAll {rs : List Reading} (hrs : Told rs) (draft : Draft) (axis : Axis) :
    (draft.acceptAll rs).component axis =
      (draft.component axis).receiveAll (rs.filter (·.isOn axis)) := by
  induction rs generalizing draft with
  | nil => rfl
  | cons r rest ih =>
    have hr := ih hrs.tail (draft.accept r.contribution)
    rw [Reading.component_accept hrs.head] at hr
    rw [List.filter_cons]
    refine hr.trans ?_
    split <;> rfl

/-- A number gives its component a size, and nothing else does. -/
theorem isSome_size_acceptAll {rs : List Reading} (hrs : Told rs) (draft : Draft) (axis : Axis) :
    ((draft.acceptAll rs).component axis).size.isSome = true ↔
      (draft.component axis).size.isSome = true ∨
        ∃ r ∈ rs, ∃ f, r.leaf = .field f ∧ f.specifier.quantity.axis = axis := by
  induction rs generalizing draft with
  | nil => simp [Draft.acceptAll]
  | cons r rest ih =>
    have hhead : (∃ q x, r.contribution = .number q x ∧ q.axis = axis) ↔
        ∃ f, r.leaf = .field f ∧ f.specifier.quantity.axis = axis := by
      have hr := hrs.head
      obtain ⟨l, w, c⟩ := r
      cases l with
      | field f =>
        obtain ⟨x, rfl, -⟩ := hr.exists_number
        simp
      | sign mark => obtain ⟨-, rfl⟩ | ⟨-, rfl⟩ := hr <;> simp
      | literal t =>
        obtain ⟨-, rfl⟩ := hr
        simp
    refine (ih hrs.tail (draft.accept r.contribution)).trans ?_
    rw [Draft.isSome_size_accept, hhead, or_assoc, List.exists_mem_cons_iff]

end GeoPattern
