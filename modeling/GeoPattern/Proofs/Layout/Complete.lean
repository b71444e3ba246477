/-
Which parts of a pattern are written. A group is complete if every leaf that stands in it, but in no
deeper group, has its component. Where no leaf is refused, a location is written exactly if the
pattern itself is complete, and its text is made up of the leaves all of whose groups are complete:
a group that is incomplete takes along what is in it, and nothing else.
Main statements: `renderAll_of_writable`, `format_eq_of_complete`.
-/
import GeoPattern.Proofs.Layout.Presence
import GeoPattern.Proofs.Layout.Refusal

namespace GeoPattern

open Node

/-! ## Complete groups -/

/-- The component that a leaf writes is present; a literal writes none. -/
def Leaf.isPresent (location : Location) (l : Leaf) : Bool :=
  l.axis?.all fun axis => (location.component axis).isSome

namespace Node

mutual

/-- The leaves of a node that stand in none of its groups. -/
def ungrouped : Node → List Leaf
  | .leaf l => [l]
  | .group _ => []
  | .sequence body => ungroupedOf body

def ungroupedOf : List Node → List Leaf
  | [] => []
  | node :: rest => ungrouped node ++ ungroupedOf rest

end

/-- Every leaf outside of deeper groups has its component. -/
def isComplete (location : Location) (body : List Node) : Bool :=
  (ungroupedOf body).all (·.isPresent location)

mutual

/-- The bodies of the groups in a node, at any depth. -/
def groups : Node → List (List Node)
  | .leaf _ => []
  | .group body => body :: groupsOf body
  | .sequence body => groupsOf body

def groupsOf : List Node → List (List Node)
  | [] => []
  | node :: rest => groups node ++ groupsOf rest

end

end Node

/-! ## Leaves in their places -/

/-- A leaf with the bodies of the groups around it, the outermost one first. -/
structure Placed where
  leaf : Leaf
  groups : List (List Node)

namespace Placed

/-- The leaf in its place, one group deeper. -/
def within (body : List Node) (p : Placed) : Placed := { p with groups := body :: p.groups }

/-- All groups around the leaf are complete. -/
def isShown (location : Location) (p : Placed) : Bool := p.groups.all (isComplete location)

@[simp] theorem leaf_within (body : List Node) (p : Placed) : (p.within body).leaf = p.leaf := rfl

@[simp] theorem isShown_within (location : Location) (body : List Node) (p : Placed) :
    (p.within body).isShown location = (isComplete location body && p.isShown location) := rfl

end Placed

namespace Node

mutual

/-- The leaves from left to right, each in its place. -/
def placed : Node → List Placed
  | .leaf l => [⟨l, []⟩]
  | .group body => (placedOf body).map (Placed.within body)
  | .sequence body => placedOf body

def placedOf : List Node → List Placed
  | [] => []
  | node :: rest => placed node ++ placedOf rest

end

/-- The leaves all of whose groups are complete, from left to right. -/
def shownOf (location : Location) (nodes : List Node) : List Leaf :=
  ((placedOf nodes).filter (Placed.isShown location)).map Placed.leaf

variable {location : Location} {nodes body rest : List Node} {l : Leaf}

theorem mem_leavesOf_of_groupsOf (hb : body ∈ groupsOf nodes) (hl : l ∈ leavesOf body) :
    l ∈ leavesOf nodes := by
  induction nodes using forest_induction with
  | nil => cases hb
  | leaf l' rest ih =>
    simp only [groupsOf, groups, List.nil_append] at hb
    simp [leavesOf, ih hb]
  | group body' rest ihb ih =>
    simp only [groupsOf, groups, List.cons_append, List.mem_cons, List.mem_append] at hb
    rw [leavesOf, leaves, List.mem_append]
    rcases hb with rfl | hb | hb
    · exact .inl hl
    · exact .inl (ihb hb)
    · exact .inr (ih hb)
  | sequence body' rest ihb ih =>
    simp only [groupsOf, groups, List.mem_append] at hb
    rw [leavesOf, leaves, List.mem_append]
    rcases hb with hb | hb
    · exact .inl (ihb hb)
    · exact .inr (ih hb)

/-! One node at a time -/

@[simp] theorem isComplete_nil : isComplete location [] = true := rfl

@[simp] theorem isComplete_leaf :
    isComplete location (.leaf l :: rest) = (l.isPresent location && isComplete location rest) := rfl

@[simp] theorem isComplete_group :
    isComplete location (.group body :: rest) = isComplete location rest := rfl

@[simp] theorem isComplete_sequence : isComplete location (.sequence body :: rest) =
    (isComplete location body && isComplete location rest) :=
  List.all_append

@[simp] theorem shownOf_nil : shownOf location [] = [] := rfl

@[simp] theorem shownOf_leaf :
    shownOf location (.leaf l :: rest) = l :: shownOf location rest := rfl

@[simp] theorem shownOf_sequence : shownOf location (.sequence body :: rest) =
    shownOf location body ++ shownOf location rest := by
  simp [shownOf, placedOf, placed]

/-- A group is shown as a whole or not at all, apart from the groups in it. -/
@[simp] theorem shownOf_group : shownOf location (.group body :: rest) =
    (if isComplete location body then shownOf location body else []) ++ shownOf location rest := by
  have hfilter : (Placed.isShown location ∘ Placed.within body) = fun p =>
      isComplete location body && p.isShown location :=
    funext (Placed.isShown_within location body)
  have hleaf : Placed.leaf ∘ Placed.within body = Placed.leaf :=
    funext (Placed.leaf_within body)
  rcases hb : isComplete location body with - | - <;>
    simp [shownOf, placedOf, placed, List.filter_map, hfilter, hleaf, hb]

end Node

/-! ## Texts of leaves -/

/-- The leaves, written one after the other, have the text. -/
def WrittenAs (location : Location) (leaves : List Leaf) (text : Text) : Prop :=
  ∃ ws : List Text, List.Forall₂ (fun l w => l.render location = .ok (some w)) leaves ws ∧
    ws.flatten = text

namespace WrittenAs

variable {location : Location} {a b : List Leaf} {s t : Text}

theorem nil : WrittenAs location [] [] := ⟨[], .nil, rfl⟩

theorem cons {l : Leaf} (hl : l.render location = .ok (some s)) (h : WrittenAs location b t) :
    WrittenAs location (l :: b) (s ++ t) := by
  obtain ⟨ws, hws, rfl⟩ := h
  exact ⟨s :: ws, .cons hl hws, rfl⟩

theorem append (ha : WrittenAs location a s) (hb : WrittenAs location b t) :
    WrittenAs location (a ++ b) (s ++ t) := by
  obtain ⟨ws, hws, rfl⟩ := ha
  obtain ⟨ws', hws', rfl⟩ := hb
  exact ⟨ws ++ ws', List.rel_append hws hws', List.flatten_append⟩

end WrittenAs

/-! ## Writing -/

section Writing

variable {location other : Location} {nodes : List Node}

theorem Leaf.isPresent_iff {l : Leaf} : l.isPresent location = true ↔
    ∀ axis, l.axis? = some axis → (location.component axis).isSome = true := by
  unfold isPresent
  cases l.axis? <;> simp

/-- A leaf that is not refused is written exactly if its component is present. -/
theorem Leaf.render_of_ne_error {l : Leaf} (h : ∀ e, l.render location ≠ .error e) :
    if l.isPresent location then ∃ w, l.render location = .ok (some w)
    else l.render location = .ok none := by
  rcases hr : l.render location with e | - | w
  · exact absurd hr (h e)
  · obtain ⟨axis, ha, hx⟩ := axis?_of_render hr
    have : l.isPresent location = false := by simp [isPresent, ha, hx]
    simp [this]
  · have : l.isPresent location = true := by
      rw [isPresent_iff]
      intro axis ha
      by_contra hx
      rw [Option.not_isSome_iff_eq_none] at hx
      cases l with
      | field f => cases ha; simp [render, hx] at hr
      | sign mark => cases ha; simp [render, hx] at hr
      | literal t => cases ha
    simp [this]

/-- The invariant of writing: a sequence is absent exactly if it is incomplete, and is written as
the leaves that are shown otherwise. -/
theorem renderAll_of_writable (h : ∀ l ∈ leavesOf nodes, ∀ e, l.render location ≠ .error e) :
    if isComplete location nodes then
      ∃ text, renderAll location nodes = .ok (some text) ∧
        WrittenAs location (shownOf location nodes) text
    else renderAll location nodes = .ok none := by
  induction nodes using forest_induction with
  | nil =>
    simp only [isComplete_nil, if_true, shownOf_nil]
    exact ⟨[], rfl, .nil⟩
  | leaf l rest ih =>
    simp only [leavesOf, leaves, List.mem_append, List.mem_singleton] at h
    have hl := Leaf.render_of_ne_error (h l (.inl rfl))
    have hrest := ih fun l' hl' => h l' (.inr hl')
    rcases hp : l.isPresent location with - | - <;> rw [hp] at hl
    · simp only [isComplete_leaf, hp, Bool.false_and]
      exact renderAll_cons_of_none hl
    · obtain ⟨w, hw⟩ := hl
      have hw : render location (.leaf l) = .ok (some w) := hw
      rcases hc : isComplete location rest with - | - <;> rw [hc] at hrest
      · simp only [isComplete_leaf, hc, Bool.and_false]
        exact renderAll_cons_of_some hw hrest
      · obtain ⟨t, ht, hwt⟩ := hrest
        simp only [isComplete_leaf, hp, hc, Bool.and_self, if_true, shownOf_leaf]
        exact ⟨w ++ t, renderAll_cons_of_some hw ht, WrittenAs.cons hw hwt⟩
  | group body rest ihb ih =>
    simp only [leavesOf, leaves, List.mem_append] at h
    have hbody := ihb fun l' hl' => h l' (.inl hl')
    have hrest := ih fun l' hl' => h l' (.inr hl')
    -- complete or not, the group is written, and only what it is written as depends on that
    obtain ⟨t, hg, hwg⟩ : ∃ t, render location (.group body) = .ok (some t) ∧
        WrittenAs location (if isComplete location body then shownOf location body else []) t := by
      rcases hc : isComplete location body with - | - <;> rw [hc] at hbody
      · exact ⟨[], render_group_of_renderAll hbody, .nil⟩
      · obtain ⟨t, ht, hwt⟩ := hbody
        exact ⟨t, render_group_of_renderAll ht, hwt⟩
    rcases hc : isComplete location rest with - | - <;> rw [hc] at hrest
    · simp only [isComplete_group, hc]
      exact renderAll_cons_of_some hg hrest
    · obtain ⟨t', ht', hwt'⟩ := hrest
      simp only [isComplete_group, hc, if_true, shownOf_group]
      exact ⟨t ++ t', renderAll_cons_of_some hg ht', hwg.append hwt'⟩
  | sequence body rest ihb ih =>
    simp only [leavesOf, leaves, List.mem_append] at h
    have hbody := ihb fun l' hl' => h l' (.inl hl')
    have hrest := ih fun l' hl' => h l' (.inr hl')
    rcases hb : isComplete location body with - | - <;> rw [hb] at hbody
    · simp only [isComplete_sequence, hb, Bool.false_and]
      exact renderAll_cons_of_none hbody
    · obtain ⟨t, ht, hwt⟩ := hbody
      have ht : render location (.sequence body) = .ok (some t) := ht
      rcases hc : isComplete location rest with - | - <;> rw [hc] at hrest
      · simp only [isComplete_sequence, hc, Bool.and_false]
        exact renderAll_cons_of_some ht hrest
      · obtain ⟨t', ht', hwt'⟩ := hrest
        simp only [isComplete_sequence, hb, hc, Bool.and_self, if_true, shownOf_sequence]
        exact ⟨t ++ t', renderAll_cons_of_some ht ht', hwt.append hwt'⟩

/-- Without a group that is incomplete a sequence is written just as with it. -/
theorem renderAll_drop_group {before inner after : List Node}
    (h : ∀ l ∈ leavesOf inner, ∀ e, l.render location ≠ .error e)
    (hinner : isComplete location inner = false) :
    renderAll location (before ++ .group inner :: after) = renderAll location (before ++ after) := by
  induction before with
  | nil =>
    have habsent := renderAll_of_writable h
    rw [hinner] at habsent
    rw [List.nil_append, List.nil_append, renderAll_cons, render_group_of_renderAll habsent]
    dsimp only
    rcases renderAll location after with e | - | t <;> rfl
  | cons node before ih => rw [List.cons_append, List.cons_append, renderAll, renderAll, ih]

/-- Writing depends on the components only that leaves write. -/
theorem renderAll_congr (h : ∀ l ∈ leavesOf nodes, ∀ axis, l.axis? = some axis →
    other.component axis = location.component axis) :
    renderAll other nodes = renderAll location nodes := by
  induction nodes using forest_induction with
  | nil => rfl
  | leaf l rest ih =>
    simp only [leavesOf, leaves, List.mem_append, List.mem_singleton] at h
    have hl : l.render other = l.render location := by
      have hx := h l (.inl rfl)
      cases l with
      | field f => rw [Leaf.render, Leaf.render, hx _ rfl]
      | sign mark => rw [Leaf.render, Leaf.render, hx _ rfl]
      | literal t => rfl
    rw [renderAll, renderAll, render, render, hl, ih fun l' hl' => h l' (.inr hl')]
  | group body rest ihb ih =>
    simp only [leavesOf, leaves, List.mem_append] at h
    rw [renderAll, renderAll, render, render, ihb fun l' hl' => h l' (.inl hl'),
      ih fun l' hl' => h l' (.inr hl')]
  | sequence body rest ihb ih =>
    simp only [leavesOf, leaves, List.mem_append] at h
    rw [renderAll, renderAll, render, render, ihb fun l' hl' => h l' (.inl hl'),
      ih fun l' hl' => h l' (.inr hl')]

end Writing

/-! ## Formatters -/

section Format

variable {pattern : Text} {f : Formatter} {location : Location}

theorem format_of_renderAll_some {text : Text} (h : renderAll location f.body = .ok (some text)) :
    f.format location = .ok text := by
  rw [Formatter.format, h]
  rfl

theorem format_of_renderAll_none (h : renderAll location f.body = .ok none) :
    f.format location = .error (.missing f.toPattern location) := by
  rw [Formatter.format, h]
  rfl

theorem format_of_renderAll_error {e : FormatError} (h : renderAll location f.body = .error e) :
    f.format location = .error e := by
  rw [Formatter.format, h]
  rfl

/-- With finite components and no number of too many digits, the only error is that a leaf outside
of all groups has no component; otherwise the text is that of the leaves all of whose groups are
complete. A group that is incomplete leaves its outer group as it would be without it, and only the
components that the pattern writes are looked at. -/
theorem format_eq_of_complete (hf : Formatter.ofPattern pattern = .ok f)
    (hfin : ∀ axis x, location.component axis = some x → x.isFinite = true)
    (hdigits : ∀ g, .field g ∈ leavesOf f.body →
      (Leaf.field g).render location ≠ .error (.arithmetic .precision)) :
    (∀ e, f.format location = .error e ↔ e = .missing f.toPattern location ∧
      ∃ l ∈ ungroupedOf f.body, l.isPresent location = false) ∧
    ((∀ l ∈ ungroupedOf f.body, l.isPresent location = true) → ∃ text,
      f.format location = .ok text ∧ WrittenAs location (shownOf location f.body) text) ∧
    (∀ outer ∈ groupsOf f.body, ∀ before inner after, outer = before ++ .group inner :: after →
      (∃ l ∈ ungroupedOf inner, l.isPresent location = false) →
        render location (.group outer) = render location (.group (before ++ after))) ∧
    ∀ other : Location, (∀ l ∈ leavesOf f.body, ∀ axis, l.axis? = some axis →
      other.component axis = location.component axis) →
        ∀ text, f.format other = .ok text ↔ f.format location = .ok text := by
  have hc := (ofPattern_eq_ok_iff.1 hf).1
  have hwritable : ∀ l ∈ leavesOf f.body, ∀ e, l.render location ≠ .error e := by
    intro l hl e he
    obtain ⟨g, x, rfl, hx, ⟨-, rfl⟩ | ⟨hinf, -⟩⟩ := render_eq_error hc hl he
    · exact hdigits g hl he
    · rw [hfin _ x hx] at hinf
      cases hinf
  have hincomplete (body : List Node) : isComplete location body = false ↔
      ∃ l ∈ ungroupedOf body, l.isPresent location = false := by
    simp [isComplete]
  have hwrite := renderAll_of_writable hwritable
  refine ⟨fun e => ?_, fun hall => ?_, fun outer hmem before inner after ho hinner => ?_,
    fun other ho text => ?_⟩
  · rw [← hincomplete]
    rcases hcomplete : isComplete location f.body with - | - <;> rw [hcomplete] at hwrite
    · rw [format_of_renderAll_none hwrite]
      simp [eq_comm]
    · obtain ⟨text, ht, -⟩ := hwrite
      rw [format_of_renderAll_some ht]
      simp
  · rw [if_pos (by simpa [isComplete] using hall)] at hwrite
    obtain ⟨text, ht, hwt⟩ := hwrite
    exact ⟨text, format_of_renderAll_some ht, hwt⟩
  · subst ho
    rw [render, render, renderAll_drop_group _ ((hincomplete inner).2 hinner)]
    intro l hl
    apply hwritable l (mem_leavesOf_of_groupsOf hmem _)
    rw [leavesOf_append, leavesOf, leaves]
    simp [hl]
  · have hsame := renderAll_congr ho
    have hiff (location : Location) : f.format location = .ok text ↔
        renderAll location f.body = .ok (some text) := by
      rw [format_eq_ok_iff]
      constructor
      · rintro ⟨es, hes, rfl⟩; exact hes.renderAll_eq
      · exact exists_writes
    rw [hiff, hiff, hsame]

/-- Twelve degrees north and seven meters up, without a longitude. -/
def withoutLongitude : Location := ⟨some (.ofRatio false 12 1), none, some (.ofRatio false 7 1)⟩

/-- The absent longitude leaves the inner group out, but not the elevation in the group around it. -/
theorem format_eq_of_complete_nested : ∃ f,
    Formatter.ofPattern (Text.lit "DD.D[ H'm'[ d.d]]") = .ok f ∧
    (∀ e, f.format withoutLongitude = .error e ↔ e = .missing f.toPattern withoutLongitude ∧
      ∃ l ∈ ungroupedOf f.body, l.isPresent withoutLongitude = false) ∧
    f.format withoutLongitude = .ok (Text.lit "12.0 7m") ∧
    WrittenAs withoutLongitude (shownOf withoutLongitude f.body) (Text.lit "12.0 7m") := by
  obtain ⟨f, hf, ht, hall, hleaves⟩ :
      ∃ f, Formatter.ofPattern (Text.lit "DD.D[ H'm'[ d.d]]") = .ok f ∧
        f.format withoutLongitude = .ok (Text.lit "12.0 7m") ∧
        (∀ l ∈ ungroupedOf f.body, l.isPresent withoutLongitude = true) ∧
        ∀ l ∈ leavesOf f.body, l.render withoutLongitude ≠ .error (.arithmetic .precision) := by
    decide +kernel
  have hfin : ∀ axis x, withoutLongitude.component axis = some x → x.isFinite = true := by
    intro axis x hx
    cases axis with
    | latitude =>
      rw [← Option.some.inj hx]
      decide +kernel
    | longitude => cases hx
    | elevation =>
      rw [← Option.some.inj hx]
      decide +kernel
  obtain ⟨herror, hwritten, -, -⟩ := format_eq_of_complete hf hfin fun g hg => hleaves _ hg
  obtain ⟨text, htext, hw⟩ := hwritten hall
  obtain rfl := Except.ok.inj (ht.symm.trans htext)
  exact ⟨f, hf, herror, ht, hw⟩

end Format

end GeoPattern
