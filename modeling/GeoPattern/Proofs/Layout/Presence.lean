/-
Which components a text is about. A group is left out only if a component is absent that it writes;
where the leaves of an axis share their groups with no other axis, all of them are written if the
component is present. What is read back has a component exactly if a number of it was written.
Main statements: `exists_event_of_together`, `isSome_component_draftOf`.
-/
import GeoPattern.Proofs.Layout.Leaf

namespace GeoPattern

open Node Event

/-! ## Writing -/

/-- A leaf is about an axis, or about none. -/
def Leaf.isOn (axis : Axis) (l : Leaf) : Bool := l.axis?.all (· == axis)

namespace Node

mutual

/-- A group inside of a node that is about an axis is about no other one. -/
def together (axis : Axis) : Node → Bool
  | .leaf _ => true
  | .group body =>
    ((leavesOf body).all (·.axis? != some axis) || (leavesOf body).all (Leaf.isOn axis)) &&
      togetherAll axis body
  | .sequence body => togetherAll axis body

def togetherAll (axis : Axis) : List Node → Bool
  | [] => true
  | node :: rest => together axis node && togetherAll axis rest

end

end Node

variable {location : Location} {nodes : List Node} {es : List Event} {axis : Axis}

theorem axis?_of_render {l : Leaf} (h : l.render location = .ok none) :
    ∃ axis, l.axis? = some axis ∧ location.component axis = none := by
  cases l with
  | field f =>
    rcases hx : location.component f.specifier.quantity.axis with - | raw
    · exact ⟨_, rfl, hx⟩
    · unfold Leaf.render at h
      simp only [hx, bind, Except.bind] at h
      split at h
      · cases h
      · split at h <;> cases h
  | sign mark =>
    rcases hx : location.component mark.axis with - | raw
    · exact ⟨_, rfl, hx⟩
    · simp [Leaf.render, hx] at h
  | literal t => cases h

/-- A sequence is absent only if a component is absent that one of its leaves writes. -/
theorem exists_absent_of_renderAll (h : renderAll location nodes = .ok none) :
    ∃ l ∈ leavesOf nodes, ∃ axis, l.axis? = some axis ∧ location.component axis = none := by
  induction nodes using forest_induction with
  | nil => cases h
  | leaf l rest ih =>
    rw [leavesOf, leaves, List.singleton_append]
    rcases render_or_renderAll_eq_none h with h | h
    · exact ⟨l, List.mem_cons_self, axis?_of_render h⟩
    · obtain ⟨l', hl', ha⟩ := ih h
      exact ⟨l', List.mem_cons_of_mem _ hl', ha⟩
  | group body rest ihb ih =>
    rcases render_or_renderAll_eq_none h with h | h
    · rw [render] at h
      rcases hb : renderAll location body with e | a <;> rw [hb] at h <;> cases h
    · obtain ⟨l', hl', ha⟩ := ih h
      exact ⟨l', List.mem_append_right _ hl', ha⟩
  | sequence body rest ihb ih =>
    rcases render_or_renderAll_eq_none h with h | h
    · obtain ⟨l', hl', ha⟩ := ihb h
      exact ⟨l', List.mem_append_left _ hl', ha⟩
    · obtain ⟨l', hl', ha⟩ := ih h
      exact ⟨l', List.mem_append_right _ hl', ha⟩

/-- A leaf of a component that is present is written, whatever groups it stands in. -/
theorem exists_event_of_together (h : Writes location nodes es)
    (ht : togetherAll axis nodes = true) (hx : (location.component axis).isSome) {l : Leaf}
    (hl : l ∈ leavesOf nodes) (ha : l.axis? = some axis) : ∃ w, .leaf l w ∈ es := by
  induction h with
  | nil => cases hl
  | @leaf l' w _ _ _ _ ih =>
    rw [leavesOf, leaves, List.singleton_append] at hl
    rcases List.mem_cons.1 hl with rfl | hl
    · exact ⟨w, List.mem_cons_self⟩
    · obtain ⟨w', hw'⟩ := ih ht hl
      exact ⟨w', List.mem_cons_of_mem _ hw'⟩
  | taken _ _ ihb ih =>
    simp only [togetherAll, together, Bool.and_eq_true] at ht
    rw [leavesOf, leaves] at hl
    rcases List.mem_append.1 hl with hl | hl
    · obtain ⟨w, hw⟩ := ihb ht.1.2 hl
      exact ⟨w, List.mem_append_left _ hw⟩
    · obtain ⟨w, hw⟩ := ih ht.2 hl
      exact ⟨w, List.mem_append_right _ hw⟩
  | @omitted body rest es hb _ ih =>
    simp only [togetherAll, together, Bool.and_eq_true] at ht
    rw [leavesOf, leaves] at hl
    rcases List.mem_append.1 hl with hl | hl
    · exfalso
      -- the group writes the axis and no other one, so nothing of it is absent
      have hall : (leavesOf body).all (Leaf.isOn axis) = true := by
        rcases Bool.or_eq_true_iff.1 ht.1.1 with h | h
        · have := List.all_eq_true.1 h l hl
          simp [ha] at this
        · exact h
      obtain ⟨l', hl', axis', ha', habsent⟩ := exists_absent_of_renderAll hb
      have hon := List.all_eq_true.1 hall l' hl'
      obtain rfl : axis' = axis := by simpa [Leaf.isOn, ha'] using hon
      rw [habsent] at hx
      cases hx
    · obtain ⟨w, hw⟩ := ih ht.2 hl
      exact ⟨w, List.mem_cons_of_mem _ hw⟩
  | sequence _ _ ihb ih =>
    simp only [togetherAll, together, Bool.and_eq_true] at ht
    rw [leavesOf, leaves] at hl
    rcases List.mem_append.1 hl with hl | hl
    · obtain ⟨w, hw⟩ := ihb ht.1 hl
      exact ⟨w, List.mem_append_left _ hw⟩
    · obtain ⟨w, hw⟩ := ih ht.2 hl
      exact ⟨w, List.mem_append_right _ hw⟩

/-! ## Reading -/

namespace Draft

@[simp] theorem component_modify_self (draft : Draft) (axis : Axis) (f : Component → Component) :
    (draft.modify axis f).component axis = f (draft.component axis) := by
  cases axis <;> rfl

theorem component_modify_of_ne (draft : Draft) {axis other : Axis} (h : axis ≠ other)
    (f : Component → Component) : (draft.modify axis f).component other = draft.component other := by
  cases axis <;> cases other <;> first | rfl | exact absurd rfl h

theorem component_build (draft : Draft) (axis : Axis) :
    draft.build.component axis = (draft.component axis).value := by
  cases axis <;> rfl

/-- A number gives its component a size, a sign gives it none. -/
theorem isSome_size_accept (draft : Draft) (c : Contribution) (axis : Axis) :
    ((draft.accept c).component axis).size.isSome = true ↔
      (draft.component axis).size.isSome = true ∨ ∃ q x, c = .number q x ∧ q.axis = axis := by
  cases c with
  | nothing => simp [accept]
  | sign other sign =>
    by_cases h : other = axis
    · subst h
      simp [accept, setSign]
    · simp [accept, setSign, component_modify_of_ne _ h]
  | number q x =>
    -- adding or setting, a number leaves a size behind
    have hself : ((draft.take q x).component q.axis).size.isSome = true := by
      unfold take
      cases q.unit <;>
        simp [addDegrees, addMinutes, addSeconds, setSize, Component.add]
    by_cases h : q.axis = axis
    · subst h
      simpa [accept] using hself
    · have : (draft.take q x).component axis = draft.component axis := by
        unfold take
        cases q.unit <;>
          simp [addDegrees, addMinutes, addSeconds, setSize, component_modify_of_ne _ h]
      simp [accept, this, h]

end Draft

theorem isSome_size_draftFrom (draft : Draft) (es : List Event) (axis : Axis) :
    ((draftFrom draft es).component axis).size.isSome = true ↔
      (draft.component axis).size.isSome = true ∨
        ∃ f w, .leaf (.field f) w ∈ es ∧ f.specifier.quantity.axis = axis := by
  induction es generalizing draft with
  | nil => simp [draftFrom]
  | cons e es ih =>
    have hhead : (∃ q x, e.meaning = .number q x ∧ q.axis = axis) ↔
        ∃ f w, e = .leaf (.field f) w ∧ f.specifier.quantity.axis = axis := by
      rcases e with ⟨f | mark | t, w⟩ | body <;> simp [Event.meaning, Leaf.meaning]
    rw [draftFrom, List.foldl_cons]
    rw [show List.foldl (fun draft e => draft.accept e.meaning) (draft.accept e.meaning) es
      = draftFrom (draft.accept e.meaning) es from rfl, ih, Draft.isSome_size_accept, hhead]
    simp only [List.mem_cons]
    constructor
    · rintro ((h | ⟨f, w, rfl, ha⟩) | ⟨f, w, h, ha⟩)
      · exact .inl h
      · exact .inr ⟨f, w, .inl rfl, ha⟩
      · exact .inr ⟨f, w, .inr h, ha⟩
    · rintro (h | ⟨f, w, rfl | h, ha⟩)
      · exact .inl (.inl h)
      · exact .inl (.inr ⟨f, w, rfl, ha⟩)
      · exact .inr ⟨f, w, h, ha⟩

/-- A component is read exactly if a number of it was written. -/
theorem isSome_component_draftOf (es : List Event) (axis : Axis) :
    ((draftOf es).build.component axis).isSome = true ↔
      ∃ f w, .leaf (.field f) w ∈ es ∧ f.specifier.quantity.axis = axis := by
  have hempty : (Draft.empty.component axis).size.isSome = false := by cases axis <;> rfl
  rw [Draft.component_build, Component.value, Option.isSome_map, draftOf, isSome_size_draftFrom,
    hempty]
  simp

end GeoPattern
