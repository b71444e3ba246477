/-
What a successful reading means. A component is present if a number of its axis was committed; an
angle is the sum of its parts in degrees, an elevation its meters, and either is negative if the one
sign of its axis says so, wherever that stands. No component depends on the leaves of another axis.
Main statement: `meaning_of_parse`.
-/
import GeoPattern.Proofs.Layout.Committed
import GeoPattern.Proofs.Pattern.Resolution

namespace GeoPattern

open Node

variable {text : Text}

/-! ## What a reading tells -/

namespace Reading

/-- The number that was read. -/
def number? (r : Reading) : Option Double :=
  match r.contribution with
  | .number _ x => some x
  | .nothing | .sign .. => none

/-- The part of an angle that was read, in degrees. -/
def degrees? (r : Reading) : Option Double :=
  match r.contribution with
  | .number q x =>
    match q.unit with
    | .degree => some x.abs
    | .minute => some (x.divNat 60)
    | .second => some (x.divNat 3600)
    | .meter => none
  | .nothing | .sign .. => none

/-- The reading says that its component is negative: a minus sign, the letter for south or west, or
signed degrees below zero. -/
def isMinus (r : Reading) : Bool :=
  match r.leaf with
  | .sign mark => r.text == [mark.negative]
  | .field f => f.specifier.quantity.isSigned && f.specifier.quantity.unit == .degree &&
      r.number?.any Double.isBelowZero
  | .literal _ => false

end Reading

/-- The sum of the parts of an angle, in degrees, in the order in which they were read. -/
def sumOf (rs : List Reading) : Double := (rs.filterMap (·.degrees?)).foldl Double.add .zero

/-- What the readings of an axis make of a size. -/
def withSign (rs : List Reading) (size : Double) : Double :=
  if rs.any (·.isMinus) then size.neg else size

/-- What a location means that was read with these readings. -/
structure Meaning (rs : List Reading) (location : Location) : Prop where
  told : Told rs
  /-- No unit of an axis is read twice. -/
  units : (Leaf.specifiers (rs.map (·.leaf))).Pairwise fun a b => b.sharesUnit a = false
  /-- No axis has two signs. -/
  signs : ∀ axis, ((rs.map (·.leaf)).filterMap Leaf.signAxis?).count axis ≤ 1
  /-- A component is present if a number of its axis was read; a sign does not suffice. -/
  present : ∀ axis, (location.component axis).isSome ↔
    ∃ r ∈ rs, ∃ f, r.leaf = .field f ∧ f.specifier.quantity.axis = axis
  /-- An angle is the sum of its parts, with its sign. -/
  angle : ∀ axis, axis ≠ .elevation → ∀ x, location.component axis = some x →
    x = withSign (rs.filter (·.isOn axis)) (sumOf (rs.filter (·.isOn axis)))
  /-- An elevation is the number of meters that was read, with its sign. -/
  elevation : ∀ x, location.elevation = some x → ∃ meters,
    (rs.filter (·.isOn .elevation)).filterMap (·.number?) = [meters] ∧
      x = withSign (rs.filter (·.isOn .elevation)) meters

/-! ## Sizes -/

theorem Quantity.isSigned_of_unit {q : Quantity} (h : q.unit = .minute ∨ q.unit = .second) :
    q.isSigned = false := by
  cases q <;> simp_all [unit, isSigned]

theorem Quantity.axis_of_meter {q : Quantity} (h : q.unit = .meter) : q.axis = .elevation := by
  cases q <;> first | rfl | cases h

namespace Reading

variable {r : Reading} {axis : Axis}

/-- A part of an angle is added to its size. -/
theorem size_receive (hr : r.leaf.Tells r.text r.contribution) (hon : r.isOn axis = true)
    (ha : axis ≠ .elevation) (component : Component) :
    (component.receive r.contribution).size =
      r.degrees?.elim component.size fun d => some ((component.size.getD .zero).add d) := by
  obtain ⟨l, w, c⟩ := r
  cases l with
  | field f =>
    obtain ⟨x, rfl, habs⟩ := hr.exists_number
    have hq : f.specifier.quantity.axis = axis := by simpa [isOn, Leaf.axis?] using hon
    simp only [Component.receive, degrees?]
    rcases hu : f.specifier.quantity.unit
    · rfl
    · have := habs (Quantity.isSigned_of_unit (.inl hu))
      simp only [Component.add, Double.abs_divNat this, Option.elim_some]
    · have := habs (Quantity.isSigned_of_unit (.inr hu))
      simp only [Component.add, Double.abs_divNat this, Option.elim_some]
    · exact absurd (hq ▸ Quantity.axis_of_meter hu) ha
  | sign mark => obtain ⟨-, rfl⟩ | ⟨-, rfl⟩ := hr <;> rfl
  | literal t =>
    obtain ⟨-, rfl⟩ := hr
    rfl

/-- Meters replace what was there. -/
theorem size_receive_elevation (hr : r.leaf.Tells r.text r.contribution)
    (hon : r.isOn .elevation = true) (component : Component) :
    (component.receive r.contribution).size = r.number?.elim component.size some := by
  obtain ⟨l, w, c⟩ := r
  cases l with
  | field f =>
    obtain ⟨x, rfl, -⟩ := hr.exists_number
    have hq : f.specifier.quantity.axis = .elevation := by simpa [isOn, Leaf.axis?] using hon
    simp only [Component.receive, Quantity.unit_of_elevation hq]
    rfl
  | sign mark => obtain ⟨-, rfl⟩ | ⟨-, rfl⟩ := hr <;> rfl
  | literal t =>
    obtain ⟨-, rfl⟩ := hr
    rfl

end Reading

section Fold

variable {rs : List Reading} {axis : Axis}

/-- Where every reading that gives something puts it to the size in one way, the size is what is put
together of all that is given. -/
theorem size_receiveAll (part? : Reading → Option Double) (put : Option Double → Double → Double)
    (h : ∀ r ∈ rs, ∀ component : Component, (component.receive r.contribution).size =
      (part? r).elim component.size fun x => some (put component.size x)) (component : Component) :
    (component.receiveAll rs).size =
      (rs.filterMap part?).foldl (fun size x => some (put size x)) component.size := by
  induction rs generalizing component with
  | nil => rfl
  | cons r rest ih =>
    rw [Component.receiveAll_cons, ih fun r hr => h r (List.mem_cons_of_mem _ hr),
      h r List.mem_cons_self, List.filterMap_cons]
    rcases part? r with - | x <;> rfl

theorem foldl_add_some (ds : List Double) (size : Double) :
    ds.foldl (fun size d => some ((size.getD .zero).add d)) (some size) =
      some (ds.foldl Double.add size) := by
  induction ds generalizing size with
  | nil => rfl
  | cons d ds ih => exact ih (size.add d)

/-- A size that comes of angles is the sum of their parts. -/
theorem eq_sumOf_of_size (hrs : Told rs) (hon : ∀ r ∈ rs, r.isOn axis = true)
    (ha : axis ≠ .elevation) {size : Double}
    (h : (Component.empty.receiveAll rs).size = some size) : size = sumOf rs := by
  rw [size_receiveAll (·.degrees?) (fun size d => (size.getD .zero).add d)
    fun r hr => Reading.size_receive (hrs r hr) (hon r hr) ha] at h
  unfold sumOf
  generalize rs.filterMap (·.degrees?) = parts at h ⊢
  cases parts with
  | nil => cases h
  | cons d ds =>
    rw [List.foldl_cons, foldl_add_some] at h
    exact (Option.some.inj h).symm

/-- A size that comes of elevations is the one number that was read. -/
theorem numbers_eq_of_size (hrs : Told rs) (hon : ∀ r ∈ rs, r.isOn .elevation = true)
    (hone : (rs.filterMap (·.number?)).length ≤ 1) {size : Double}
    (h : (Component.empty.receiveAll rs).size = some size) : rs.filterMap (·.number?) = [size] := by
  rw [size_receiveAll (·.number?) (fun _ x => x)
    fun r hr => Reading.size_receive_elevation (hrs r hr) (hon r hr)] at h
  generalize rs.filterMap (·.number?) = numbers at hone h ⊢
  rcases numbers with - | ⟨meters, - | ⟨other, more⟩⟩
  · cases h
  · exact congrArg (fun x => [x]) (Option.some.inj h)
  · simp at hone

end Fold

/-! ## Signs -/

namespace Reading

variable {r : Reading}

/-- A field makes its component negative if it reads signed degrees below zero. -/
theorem sign_receive_field {f : Field} {w : Text} {c : Contribution}
    (h : (Leaf.field f).Tells w c) (component : Component) : (component.receive c).sign =
      if (Reading.mk (.field f) w c).isMinus then -1 else component.sign := by
  obtain ⟨x, rfl, habs⟩ := h.exists_number
  rcases hu : f.specifier.quantity.unit
  · rcases hs : f.specifier.quantity.isSigned
    · have := Double.isBelowZero_of_abs (habs hs)
      simp [Component.receive, Component.add, isMinus, hu, hs, this]
    · simp [Component.receive, Component.add, isMinus, number?, hu, hs]
  -- minutes and seconds are never below zero, and meters keep their own sign
  · have := habs (Quantity.isSigned_of_unit (.inl hu))
    simp [Component.receive, Component.add, isMinus, hu,
      Double.isBelowZero_of_abs (Double.abs_divNat this 60)]
  · have := habs (Quantity.isSigned_of_unit (.inr hu))
    simp [Component.receive, Component.add, isMinus, hu,
      Double.isBelowZero_of_abs (Double.abs_divNat this 3600)]
  · simp [Component.receive, isMinus, hu]

/-- A leaf that carries no sign leaves it as it is. -/
theorem sign_receive_of_none (hr : r.leaf.Tells r.text r.contribution)
    (hs : r.leaf.signAxis? = none) (component : Component) :
    (component.receive r.contribution).sign = component.sign ∧ r.isMinus = false := by
  obtain ⟨l, w, c⟩ := r
  cases l with
  | field f =>
    have hminus : (Reading.mk (.field f) w c).isMinus = false := by
      have hu : f.specifier.quantity.isSigned = false := by simpa [Leaf.signAxis?] using hs
      simp [isMinus, hu]
    exact ⟨by rw [sign_receive_field hr, if_neg (by simp [hminus])], hminus⟩
  | sign mark => cases hs
  | literal t =>
    obtain ⟨-, rfl⟩ := hr
    exact ⟨rfl, rfl⟩

/-- A leaf that carries a sign makes it minus or plus. -/
theorem sign_receive_of_some {axis : Axis} (hr : r.leaf.Tells r.text r.contribution)
    (hs : r.leaf.signAxis? = some axis) {component : Component} (hpos : component.sign = 1) :
    (component.receive r.contribution).sign = if r.isMinus then -1 else 1 := by
  obtain ⟨l, w, c⟩ := r
  cases l with
  | field f => rw [sign_receive_field hr, hpos]
  | sign mark =>
    obtain ⟨rfl, rfl⟩ | ⟨rfl, rfl⟩ := hr
    · simp [Component.receive, isMinus, Leaf.positive_ne_negative]
    · simp [Component.receive, isMinus]
  | literal t => cases hs

end Reading

section Fold

variable {rs : List Reading}

theorem sign_receiveAll_of_none (hrs : Told rs)
    (hs : rs.filterMap (·.leaf.signAxis?) = []) (component : Component) :
    (component.receiveAll rs).sign = component.sign ∧ rs.any (·.isMinus) = false := by
  induction rs generalizing component with
  | nil => exact ⟨rfl, rfl⟩
  | cons r rest ih =>
    have hnone := List.filterMap_eq_nil_iff.1 hs
    obtain ⟨hsign, hminus⟩ :=
      Reading.sign_receive_of_none hrs.head (hnone r List.mem_cons_self) component
    obtain ⟨hrest, hany⟩ := ih hrs.tail
      (List.filterMap_eq_nil_iff.2 fun r hr => hnone r (List.mem_cons_of_mem _ hr))
      (component.receive r.contribution)
    rw [Component.receiveAll_cons, hrest, hsign, List.any_cons, hminus, hany]
    exact ⟨rfl, rfl⟩

/-- Where at most one leaf carries a sign, it decides, wherever it stands. -/
theorem sign_receiveAll (hrs : Told rs) (hs : (rs.filterMap (·.leaf.signAxis?)).length ≤ 1)
    {component : Component} (hpos : component.sign = 1) :
    (component.receiveAll rs).sign = if rs.any (·.isMinus) then -1 else 1 := by
  induction rs generalizing component with
  | nil => exact hpos
  | cons r rest ih =>
    rw [Component.receiveAll_cons, List.any_cons]
    rcases ha : r.leaf.signAxis? with - | axis
    · obtain ⟨hsign, hminus⟩ := Reading.sign_receive_of_none hrs.head ha component
      rw [List.filterMap_cons, ha] at hs
      rw [ih hrs.tail hs (hsign.trans hpos), hminus, Bool.false_or]
    · -- nothing behind the sign carries another one
      rw [List.filterMap_cons, ha, List.length_cons] at hs
      have hnone := List.length_eq_zero_iff.1 (by omega :
        (rest.filterMap (·.leaf.signAxis?)).length = 0)
      obtain ⟨hsign, hany⟩ :=
        sign_receiveAll_of_none hrs.tail hnone (component.receive r.contribution)
      rw [hsign, hany, Reading.sign_receive_of_some hrs.head ha hpos, Bool.or_false]

end Fold

/-! ## What is committed once -/

section Once

variable {rs : List Reading}

theorem Leaf.axis?_of_signAxis? {l : Leaf} {axis : Axis} (h : l.signAxis? = some axis) :
    l.axis? = some axis := by
  cases l with
  | field f =>
    unfold signAxis? at h
    dsimp only at h
    split at h
    · exact h
    · cases h
  | sign mark => exact h
  | literal t => cases h

/-- The leaves of an axis carry the signs of that axis. -/
theorem length_signs_isOn (rs : List Reading) (axis : Axis) :
    ((rs.filter (·.isOn axis)).filterMap (·.leaf.signAxis?)).length =
      ((rs.map (·.leaf)).filterMap Leaf.signAxis?).count axis := by
  induction rs with
  | nil => rfl
  | cons r rest ih =>
    rw [List.filter_cons, List.map_cons, List.filterMap_cons]
    rcases hs : r.leaf.signAxis? with - | other
    · split
      · rw [List.filterMap_cons, hs]
        exact ih
      · exact ih
    · dsimp only
      rw [Reading.isOn, Leaf.axis?_of_signAxis? hs, List.count_cons, ← ih]
      by_cases h : other = axis
      · subst h
        simp [hs]
      · simp [h]

theorem length_numbers (hrs : Told rs) :
    (rs.filterMap (·.number?)).length = (Leaf.specifiers (rs.map (·.leaf))).length := by
  unfold Leaf.specifiers
  induction rs with
  | nil => rfl
  | cons r rest ih =>
    have hr := hrs.head
    have hrest := ih hrs.tail
    obtain ⟨l, w, c⟩ := r
    rw [List.map_cons, List.filterMap_cons, List.filterMap_cons]
    cases l with
    | field f =>
      obtain ⟨x, rfl, -⟩ := hr.exists_number
      exact congrArg (· + 1) hrest
    | sign mark => obtain ⟨-, rfl⟩ | ⟨-, rfl⟩ := hr <;> exact hrest
    | literal t =>
      obtain ⟨-, rfl⟩ := hr
      exact hrest

/-- An elevation is read once. -/
theorem length_meters_le (hrs : Told rs) (hon : ∀ r ∈ rs, r.isOn .elevation = true)
    (hunits : (Leaf.specifiers (rs.map (·.leaf))).Pairwise fun a b => b.sharesUnit a = false) :
    (rs.filterMap (·.number?)).length ≤ 1 := by
  rw [length_numbers hrs]
  have hmeter : ∀ s ∈ Leaf.specifiers (rs.map (·.leaf)), s.quantity.axis = .elevation := by
    intro s hs
    obtain ⟨l, hl, hls⟩ := List.mem_filterMap.1 hs
    obtain ⟨r, hr, rfl⟩ := List.mem_map.1 hl
    have hr := hon r hr
    rw [Reading.isOn] at hr
    rcases hl : r.leaf with f | mark | t <;> rw [hl] at hls hr <;> cases hls
    simpa [Leaf.axis?] using hr
  generalize Leaf.specifiers (rs.map (·.leaf)) = specifiers at hunits hmeter ⊢
  rcases specifiers with - | ⟨a, - | ⟨b, more⟩⟩
  · exact Nat.zero_le 1
  · exact le_rfl
  · exfalso
    have ha := hmeter a (by simp)
    have hb := hmeter b (by simp)
    have hne := (List.pairwise_cons.1 hunits).1 b (by simp)
    rw [Specifier.sharesUnit, ha, hb, Quantity.unit_of_elevation ha,
      Quantity.unit_of_elevation hb] at hne
    cases hne

end Once

/-! ## The location -/

/-- Readings that tell what they contribute, with no unit and no sign read twice, are what the
location means that they make. -/
theorem meaning_of_told {rs : List Reading} (h : Told rs)
    (hunits : (Leaf.specifiers (rs.map (·.leaf))).Pairwise fun a b => b.sharesUnit a = false)
    (hsigns : ∀ axis, ((rs.map (·.leaf)).filterMap Leaf.signAxis?).count axis ≤ 1) :
    Meaning rs (Draft.empty.acceptAll rs).build := by
  have hempty (axis : Axis) : Draft.empty.component axis = .empty := by cases axis <;> rfl
  have hon (axis : Axis) : ∀ r ∈ rs.filter (·.isOn axis), r.isOn axis = true :=
    fun r hr => (List.mem_filter.1 hr).2
  -- a component that is present has a size by the leaves of its axis, and their sign
  have hvalue {axis : Axis} {x : Double} (hx : (Draft.empty.acceptAll rs).build.component axis = some x) :
      ∃ size, (Component.empty.receiveAll (rs.filter (·.isOn axis))).size = some size ∧
        x = withSign (rs.filter (·.isOn axis)) size := by
    rw [Draft.component_build, component_acceptAll h, hempty, Component.value,
      Option.map_eq_some_iff] at hx
    obtain ⟨size, hsize, rfl⟩ := hx
    refine ⟨size, hsize, ?_⟩
    rw [sign_receiveAll (h.filter _) (by rw [length_signs_isOn]; exact hsigns axis) rfl]
    exact Double.ofInt_mul _ size
  refine ⟨h, hunits, hsigns, fun axis => ?_, fun axis ha x hx => ?_, fun x hx => ?_⟩
  · rw [Draft.component_build, Component.value, Option.isSome_map, isSome_size_acceptAll h, hempty]
    simp [Component.empty]
  · obtain ⟨size, hsize, rfl⟩ := hvalue hx
    rw [eq_sumOf_of_size (h.filter _) (hon axis) ha hsize]
  · obtain ⟨size, hsize, rfl⟩ := @hvalue .elevation x hx
    have hone := length_meters_le (h.filter _) (hon .elevation)
      (hunits.sublist ((List.filter_sublist.map _).filterMap _))
    exact ⟨size, numbers_eq_of_size (h.filter _) (hon .elevation) hone hsize, rfl⟩

/-- Which component is present, and what it is, is told by the leaves of its axis alone. -/
theorem Meaning.component_congr {rs rs' : List Reading} {location location' : Location}
    (h : Meaning rs location) (h' : Meaning rs' location') {axis : Axis}
    (he : rs.filter (·.isOn axis) = rs'.filter (·.isOn axis)) :
    location.component axis = location'.component axis := by
  have hmem {rs : List Reading} :
      (∃ r ∈ rs, ∃ f, r.leaf = .field f ∧ f.specifier.quantity.axis = axis) ↔
        ∃ r ∈ rs.filter (·.isOn axis), ∃ f, r.leaf = .field f := by
    constructor
    · rintro ⟨r, hr, f, hl, ha⟩
      exact ⟨r, List.mem_filter.2 ⟨hr, by simp [Reading.isOn, hl, Leaf.axis?, ha]⟩, f, hl⟩
    · rintro ⟨r, hr, f, hl⟩
      obtain ⟨hr, hon⟩ := List.mem_filter.1 hr
      exact ⟨r, hr, f, hl, by simpa [Reading.isOn, hl, Leaf.axis?] using hon⟩
  have hpresent : (location.component axis).isSome ↔ (location'.component axis).isSome := by
    rw [h.present, h'.present, hmem, hmem, he]
  rcases hx : location.component axis with - | x
  · rw [hx] at hpresent
    exact (Option.not_isSome_iff_eq_none.1 fun hx' => by simpa using hpresent.2 hx').symm
  · obtain ⟨x', hx'⟩ := Option.isSome_iff_exists.1 (hpresent.1 (by rw [hx]; rfl))
    rw [hx']
    by_cases ha : axis = .elevation
    · subst ha
      obtain ⟨meters, hm, rfl⟩ := h.elevation x hx
      obtain ⟨meters', hm', rfl⟩ := h'.elevation x' hx'
      rw [← he, hm] at hm'
      cases hm'
      rw [he]
    · rw [h.angle axis ha x hx, h'.angle axis ha x' hx', he]

/-- From any cursor in the text, a location means what was committed up to where the cursor is
left. -/
theorem meaning_of_parseAt {pattern : Text} {f : Formatter}
    (hf : Formatter.ofPattern pattern = .ok f) {cursor last : Cursor} {location : Location}
    (h : f.parseAt text cursor = (.ok location, last)) :
    (f.readings text cursor).map (·.leaf) = splicedAll text ⟨cursor, .empty⟩ f.body ∧
      text.drop cursor.index.toNat =
        (f.readings text cursor).flatMap (·.text) ++ text.drop last.index.toNat ∧
      Meaning (f.readings text cursor) location := by
  unfold Formatter.parseAt at h
  split at h
  · cases h
  rename_i hin
  rcases hr : readAll text ⟨cursor, .empty⟩ f.body with ⟨- | -, stopped⟩ | after
  · rw [hr] at h; cases h
  · rw [hr] at h; cases h
  rw [hr] at h
  cases h
  have h0 : 0 ≤ cursor.index := by omega
  rw [← readAll_map_splicedAll] at hr
  obtain ⟨hleaves, hrs⟩ := @accounts_readingsFrom text ⟨cursor, .empty⟩ after _ h0 hr
  refine ⟨hleaves, hrs.drop_eq, ?_⟩
  -- what is committed stands in the tree, where no unit and no sign is repeated
  obtain ⟨hunits, hsigns, -⟩ := validate_of_compile (ofPattern_eq_ok_iff.1 hf).1
  have hsub := splicedAll_sublist text ⟨cursor, .empty⟩ f.body
  rw [← hleaves] at hsub
  rw [hrs.draft_eq]
  exact meaning_of_told hrs.told (hunits.sublist (hsub.filterMap _)) fun axis =>
    ((hsub.filterMap Leaf.signAxis?).count_le axis).trans (hsigns axis)

theorem parseAt_of_parse {f : Formatter} {location : Location} (h : f.parse text = .ok location) :
    ∃ last, f.parseAt text (.start 0) = (.ok location, last) ∧ last.index = text.length := by
  unfold Formatter.parse at h
  rcases hat : f.parseAt text (.start 0) with ⟨e | location', last⟩ <;> rw [hat] at h
  · cases h
  · dsimp only at h
    split at h
    · rename_i hend
      cases h
      exact ⟨last, rfl, hend⟩
    · cases h

/-- A text that is parsed is made up of what was committed, which is what the location means; and
two locations agree on an axis for which the same was committed. -/
theorem meaning_of_parse {pattern : Text} {f : Formatter}
    (hf : Formatter.ofPattern pattern = .ok f) {location : Location}
    (h : f.parse text = .ok location) :
    ((f.readings text (.start 0)).map (·.leaf) = splicedAll text ⟨.start 0, .empty⟩ f.body ∧
      (f.readings text (.start 0)).flatMap (·.text) = text ∧
      Meaning (f.readings text (.start 0)) location) ∧
    ∀ (pattern' text' : Text) (f' : Formatter) (location' : Location) (axis : Axis),
      Formatter.ofPattern pattern' = .ok f' → f'.parse text' = .ok location' →
      (f.readings text (.start 0)).filter (·.isOn axis) =
        (f'.readings text' (.start 0)).filter (·.isOn axis) →
      location.component axis = location'.component axis := by
  obtain ⟨last, hat, hend⟩ := parseAt_of_parse h
  obtain ⟨hleaves, hdrop, hm⟩ := meaning_of_parseAt hf hat
  refine ⟨⟨hleaves, ?_, hm⟩, fun pattern' text' f' location' axis hf' h' he => ?_⟩
  · rw [hend, Int.toNat_natCast, List.drop_length, List.append_nil] at hdrop
    exact hdrop.symm
  · obtain ⟨last', hat', -⟩ := parseAt_of_parse h'
    exact hm.component_congr (meaning_of_parseAt hf' hat').2.2 he

/-- The group of the elevation is left out, and the letter behind makes the latitude negative. -/
theorem meaning_of_parse_south : ∃ f location,
    Formatter.ofPattern (Text.lit "D M[ +H]X") = .ok f ∧
      f.parse (Text.lit "12 30S") = .ok location ∧
      ((f.readings (Text.lit "12 30S") (.start 0)).map (·.leaf) =
          splicedAll (Text.lit "12 30S") ⟨.start 0, .empty⟩ f.body ∧
        (f.readings (Text.lit "12 30S") (.start 0)).flatMap (·.text) = Text.lit "12 30S" ∧
        Meaning (f.readings (Text.lit "12 30S") (.start 0)) location) ∧
      location = .ofLatitude (.ofRatio true 25 2) := by
  obtain ⟨f, hf, hp⟩ : ∃ f, Formatter.ofPattern (Text.lit "D M[ +H]X") = .ok f ∧
      f.parse (Text.lit "12 30S") = .ok (.ofLatitude (.ofRatio true 25 2)) := by
    decide +kernel
  exact ⟨f, _, hf, hp, (meaning_of_parse hf hp).1, rfl⟩

end GeoPattern
