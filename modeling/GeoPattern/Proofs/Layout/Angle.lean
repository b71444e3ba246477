/-
What a text shows of an angle that is written with minutes. The angle is rounded once and split
exactly; whole parts are shown as they are, but the finest part goes through a double and is rounded
to its fraction digits again. Up to fourteen fraction digits the second rounding changes nothing;
with more of them it can, and then the text may even show sixty.
Main statements: `angle_shown`, `showsTotal_iff_kept`, `kept_of_le`.
-/
import GeoPattern.Proofs.Layout.Leaf
import GeoPattern.Proofs.Pattern.Resolution

namespace GeoPattern

open Node Event

/-! ## Numbers that are shown -/

namespace Event

/-- The number that an event shows for a unit of an axis. -/
def number? (axis : Axis) (unit : MeasureUnit) : Event → Option ℚ
  | leaf (.field f) w =>
    if f.specifier.quantity.axis = axis ∧ f.specifier.quantity.unit = unit then
      some (Numeral.ofText w).toRat
    else none
  | _ => none

/-- The number that events show for a unit of an axis. -/
def shown (es : List Event) (axis : Axis) (unit : MeasureUnit) : Option ℚ :=
  es.findSome? (number? axis unit)

theorem number?_eq_some {axis : Axis} {unit : MeasureUnit} {e : Event} {x : ℚ}
    (h : e.number? axis unit = some x) : ∃ f w, e = .leaf (.field f) w ∧
      f.specifier.quantity.axis = axis ∧ f.specifier.quantity.unit = unit ∧
        (Numeral.ofText w).toRat = x := by
  unfold number? at h
  split at h
  · rename_i f w
    split at h
    · rename_i hf
      exact ⟨f, w, rfl, hf.1, hf.2, Option.some.inj h⟩
    · cases h
  · cases h

theorem shown_eq_some {es : List Event} {axis : Axis} {unit : MeasureUnit} {x : ℚ}
    (h : shown es axis unit = some x) : ∃ f w, .leaf (.field f) w ∈ es ∧
      f.specifier.quantity.axis = axis ∧ f.specifier.quantity.unit = unit ∧
        (Numeral.ofText w).toRat = x := by
  obtain ⟨e, he, hx⟩ := List.exists_of_findSome?_eq_some h
  obtain ⟨f, w, rfl, ha, hu, hn⟩ := number?_eq_some hx
  exact ⟨f, w, he, ha, hu, hn⟩

end Event

/-! ## One field -/

/-- The part of an angle that is counted in a unit. -/
def Angle.Parts.part (p : Angle.Parts) : MeasureUnit → Decimal
  | .degree => p.degrees
  | .minute => p.minutes
  | .second | .meter => p.seconds

theorem Field.partOf_parts (toDouble : Decimal → Double) (unit : MeasureUnit) (p : Angle.Parts) :
    partOf unit (toDouble p.degrees, toDouble p.minutes, toDouble p.seconds)
      = toDouble (p.part unit) := by
  cases unit <;> rfl

/-- A field of an angle with minutes takes its part out of the angle that is rounded to the
resolution. -/
theorem Field.value_eq_ok {f : Field} {unit : MeasureUnit} {places : ℕ} {negative : Bool}
    {m : Magnitude} {value : Double} (hs : f.specifier.quantity.isSigned = false)
    (hm : f.specifier.quantity.unit ≠ .meter) (hr : f.resolution = some ⟨unit, places⟩)
    (hu : unit ≠ .degree) (h : f.value (.finite negative m) = .ok value) :
    ∃ p, Angle.split m unit places = .ok p ∧
      value = (p.part f.specifier.quantity.unit).toDouble false := by
  unfold Field.value Field.unsignedValue at h
  rw [hs, hr] at h
  simp only [Double.isFinite, Bool.not_true, Bool.or_false, Bool.false_eq_true, if_false,
    Option.getD_some, if_neg hm, if_neg hu] at h
  split at h
  · rename_i parts hp
    obtain ⟨p, hsplit, rfl⟩ := Angle.parts_eq_ok_iff.1 hp
    refine ⟨p, hsplit, ?_⟩
    rw [← Except.ok.inj h, partOf_parts (Decimal.toDouble false)]
  · cases h

/-- The number that a field of an angle with minutes shows: its part of the angle, as the double
nearest to it is written. -/
theorem toRat_of_render {f : Field} {unit : MeasureUnit} {places : ℕ} {negative : Bool}
    {m : Magnitude} {location : Location} {w : Text}
    (hx : location.component f.specifier.quantity.axis = some (.finite negative m))
    (hs : f.specifier.quantity.isSigned = false) (hm : f.specifier.quantity.unit ≠ .meter)
    (hr : f.resolution = some ⟨unit, places⟩) (hu : unit ≠ .degree)
    (h : (Leaf.field f).render location = .ok (some w)) :
    ∃ p, Angle.split m unit places = .ok p ∧ (Numeral.ofText w).toRat =
      toPlaces f.specifier.fractionDigits
        (nearestDouble (p.part f.specifier.quantity.unit).toRat) := by
  obtain ⟨raw, sign, size, hraw, hv, -, hp⟩ := Leaf.prints_of_render h
  rw [hx] at hraw
  obtain rfl := Option.some.inj hraw
  obtain ⟨p, hsplit, he⟩ := Field.value_eq_ok hs hm hr hu hv
  refine ⟨p, hsplit, ?_⟩
  rw [hp.toRat, (Decimal.toRat_toDouble he.symm).2]

/-! ## The angle -/

/-- A whole number is shown as it is. -/
theorem toPlaces_zero_nearestDouble {n : ℕ} (h : nearestDouble n = n) :
    toPlaces 0 (nearestDouble n) = n := by
  rw [h, toPlaces_natCast]

section Angle

variable {pattern : Text} {body : List Node} {location : Location} {es : List Event} {axis : Axis}
  {negative : Bool} {m : Magnitude} {minutes : Specifier}

/-- The fields of an axis are rendered, whatever brackets they stand in. -/
def Shows (body : List Node) (es : List Event) (axis : Axis) : Prop :=
  ∀ s ∈ Leaf.specifiers (leavesOf body), s.quantity.axis = axis →
    (shown es axis s.quantity.unit).isSome

instance : Decidable (Shows body es axis) :=
  inferInstanceAs (Decidable (∀ s ∈ Leaf.specifiers (leavesOf body), s.quantity.axis = axis →
    (shown es axis s.quantity.unit).isSome))

theorem Shows.exists_event (h : Shows body es axis) {unit : MeasureUnit} {s : Specifier}
    (hs : fieldOf? (Leaf.specifiers (leavesOf body)) axis unit = some s) : ∃ f w,
      .leaf (.field f) w ∈ es ∧ f.specifier.quantity.axis = axis ∧
        f.specifier.quantity.unit = unit ∧ shown es axis unit = some (Numeral.ofText w).toRat := by
  obtain ⟨hmem, ha, rfl⟩ := fieldOf?_eq_some hs
  obtain ⟨x, hx⟩ := Option.isSome_iff_exists.1 (h s hmem ha)
  obtain ⟨f, w, he, hfa, hfu, rfl⟩ := shown_eq_some hx
  exact ⟨f, w, he, hfa, hfu, hx⟩

/-- Fields with the same specifier write the same text. -/
theorem render_congr (hc : compile pattern = .ok body) {f g : Field}
    (hf : .field f ∈ leavesOf body) (hg : .field g ∈ leavesOf body)
    (h : f.specifier = g.specifier) :
    (Leaf.field f).render location = (Leaf.field g).render location := by
  have hr : f.resolution = g.resolution := by
    rw [resolution_of_compile hc hf, resolution_of_compile hc hg, h]
  obtain ⟨s, b, r⟩ := f
  obtain ⟨s', b', r'⟩ := g
  cases h
  cases hr
  rfl

/-- A number that is written for a unit of an axis is the one that is shown for it. -/
theorem shown_of_mem (hc : compile pattern = .ok body) (hw : Writes location body es) {f : Field}
    {w : Text} (h : .leaf (.field f) w ∈ es) :
    shown es f.specifier.quantity.axis f.specifier.quantity.unit
      = some (Numeral.ofText w).toRat := by
  obtain ⟨hpair, -, -, -⟩ := validate_of_compile hc
  have hsome : (shown es f.specifier.quantity.axis f.specifier.quantity.unit).isSome = true :=
    List.findSome?_isSome_iff.2 ⟨_, h, by simp [number?]⟩
  obtain ⟨x, hx⟩ := Option.isSome_iff_exists.1 hsome
  obtain ⟨g, u, hg, ha, hu, rfl⟩ := shown_eq_some hx
  obtain ⟨hfm, hfr⟩ := hw.mem_leaf h
  obtain ⟨hgm, hgr⟩ := hw.mem_leaf hg
  have hsame := eq_of_sharesUnit hpair (mem_specifiers hgm) (mem_specifiers hfm) ha hu
  rw [render_congr hc hgm hfm hsame, hfr] at hgr
  cases hgr
  exact hx

/-- A field of an axis with minutes shows its part of the angle, as the double nearest to it. -/
theorem shown_part (hc : compile pattern = .ok body) (hw : Writes location body es)
    (hx : location.component axis = some (.finite negative m)) (hshows : Shows body es axis)
    {unit finest : MeasureUnit} {places : ℕ} {s : Specifier}
    (hres : resolutionOf (Leaf.specifiers (leavesOf body)) axis = some ⟨finest, places⟩)
    (hfinest : finest ≠ .degree)
    (hs : fieldOf? (Leaf.specifiers (leavesOf body)) axis unit = some s)
    (hsigned : s.quantity.isSigned = false) (hmeter : unit ≠ .meter) :
    ∃ p, Angle.split m finest places = .ok p ∧ shown es axis unit =
      some (toPlaces s.fractionDigits (nearestDouble (p.part unit).toRat)) := by
  obtain ⟨hpair, -, -, -⟩ := validate_of_compile hc
  obtain ⟨f, w, he, ha, hu, hshown⟩ := hshows.exists_event hs
  obtain ⟨hmem, hrender⟩ := hw.mem_leaf he
  obtain ⟨hsm, hsa, hsu⟩ := fieldOf?_eq_some hs
  -- no other field writes the unit, so the event is one of this field
  obtain rfl : f.specifier = s :=
    eq_of_sharesUnit hpair (mem_specifiers hmem) hsm (ha.trans hsa.symm) (hu.trans hsu.symm)
  have hr := resolution_of_compile hc hmem
  rw [ha, hres] at hr
  obtain ⟨p, hp, hn⟩ := toRat_of_render (by rw [ha]; exact hx) hsigned (by rw [hu]; exact hmeter) hr
    hfinest hrender
  rw [hu] at hn
  exact ⟨p, hp, by rw [hshown, hn]⟩

/-- What a text shows of an angle with minutes: the parts of the angle rounded once to its finest
fraction digits, where only the finest part is rounded again, as a double. -/
theorem angle_shown (hc : compile pattern = .ok body) (hw : Writes location body es)
    (hx : location.component axis = some (.finite negative m))
    (hm : fieldOf? (Leaf.specifiers (leavesOf body)) axis .minute = some minutes)
    (hshows : Shows body es axis) :
    let finest := finestOf (Leaf.specifiers (leavesOf body)) axis minutes
    let total := toPlaces finest.fractionDigits (Angle.measure m finest.quantity.unit)
    ∃ (d : ℕ) (s : ℚ), shown es axis .degree = some (d : ℚ) ∧ 0 ≤ s ∧ s < 60 ∧
      (finest.quantity.unit = .minute ∧ total = d * 60 + s ∧
          shown es axis .minute = some (toPlaces finest.fractionDigits (nearestDouble s)) ∨
        finest.quantity.unit = .second ∧ ∃ k : ℕ, k < 60 ∧ total = d * 3600 + k * 60 + s ∧
          shown es axis .minute = some (k : ℚ) ∧
          shown es axis .second = some (toPlaces finest.fractionDigits (nearestDouble s))) := by
  intro finest total
  obtain ⟨hres, d, hd, hdsigned, hdwhole⟩ := finest_of_compile hc hm
  obtain ⟨-, hsec⟩ := angleChecked_of_compile hc axis
  obtain ⟨-, -, hmu⟩ := fieldOf?_eq_some hm
  have hmsigned := (Specifier.counts_of_unit (.inl hmu)).2.1
  have hunit := unit_finestOf hm
  have hdeg : finest.quantity.unit ≠ .degree := by
    rcases hunit with ⟨h, -⟩ | ⟨h, -⟩ <;> rw [h] <;> exact MeasureUnit.noConfusion
  obtain ⟨p, hp, hshowd⟩ :=
    shown_part hc hw hx hshows hres hdeg hd hdsigned MeasureUnit.noConfusion
  obtain ⟨p', hp', hshowm⟩ :=
    shown_part hc hw hx hshows hres hdeg hm hmsigned MeasureUnit.noConfusion
  obtain rfl : p = p' := Except.ok.inj (hp.symm.trans hp')
  obtain ⟨t, n, ht, hdn, hsplit⟩ := Angle.split_spec (hunit.imp And.left And.left) hp
  have htotal : t.toRat = total :=
    Angle.toRat_total (Angle.ne_meter_of_finer (hunit.imp And.left And.left)) ht
  have hdegrees (hle : n * (finest.quantity.unit.perDegree : ℚ) ≤ t.toRat)
      (hlt : t.toRat < (n + 1) * finest.quantity.unit.perDegree) :
      shown es axis .degree = some (n : ℚ) := by
    have hexact := Angle.nearestDouble_degrees (hunit.imp And.left And.left) ht hle hlt
    rw [hshowd, hdwhole, show p.part .degree = ⟨n, 0⟩ from hdn, Decimal.toRat_whole,
      toPlaces_zero_nearestDouble hexact]
  -- with minutes as the finest unit two parts are shown, with seconds three
  rcases hsplit with ⟨hu, hsum, hlt, -⟩ | ⟨hu, k, hk, hk60, hsum, hlt⟩
  · have hs0 := p.minutes.toRat_nonneg
    have hf : finest = minutes := (hunit.resolve_right fun h => by rw [hu] at h; cases h.1).2
    refine ⟨n, p.minutes.toRat, hdegrees ?_ ?_, hs0, hlt, .inl ⟨hu, htotal ▸ hsum, ?_⟩⟩
    · rw [hu, hsum, show ((MeasureUnit.minute.perDegree : ℕ) : ℚ) = 60 from rfl]
      linarith
    · rw [hu, hsum, show ((MeasureUnit.minute.perDegree : ℕ) : ℚ) = 60 from rfl]
      linarith
    · rw [hshowm, hf]
      rfl
  · obtain ⟨-, hs⟩ := hunit.resolve_left fun h => by rw [hu] at h; cases h.1
    have hs0 := p.seconds.toRat_nonneg
    have hk60' : (k : ℚ) ≤ 59 := by exact_mod_cast Nat.le_of_lt_succ hk60
    have hk0 : (0 : ℚ) ≤ k := Nat.cast_nonneg k
    obtain ⟨q, hq, hqwhole⟩ := hsec _ hs
    obtain rfl : q = minutes := Option.some.inj (hq.symm.trans hm)
    obtain ⟨-, -, hsu⟩ := fieldOf?_eq_some hs
    have hssigned := (Specifier.counts_of_unit (.inr hsu)).2.1
    obtain ⟨p', hp', hshows'⟩ :=
      shown_part hc hw hx hshows hres hdeg hs hssigned MeasureUnit.noConfusion
    obtain rfl : p = p' := Except.ok.inj (hp.symm.trans hp')
    refine ⟨n, p.seconds.toRat, hdegrees ?_ ?_, hs0, hlt,
      .inr ⟨hu, k, hk60, htotal ▸ hsum, ?_, hshows'⟩⟩
    · rw [hu, hsum, show ((MeasureUnit.second.perDegree : ℕ) : ℚ) = 3600 from rfl]
      linarith
    · rw [hu, hsum, show ((MeasureUnit.second.perDegree : ℕ) : ℚ) = 3600 from rfl]
      linarith
    · rw [hshowm, hqwhole, show p.part .minute = ⟨k, 0⟩ from hk, Decimal.toRat_whole,
        toPlaces_zero_nearestDouble (nearestDouble_natCast (by omega))]

end Angle

/-! ## Up to sixty -/

/-- What is left of a total above its whole sixties. -/
def sixtiesRest (total : ℚ) : ℚ := total - 60 * ⌊total / 60⌋

/-- The finest part of a total is found again after its detour through a double. -/
def Kept (places : ℕ) (total : ℚ) : Prop :=
  toPlaces places (nearestDouble (sixtiesRest total)) = sixtiesRest total

/-- The numbers that are shown for an angle add up to a total in its finest unit, and no number of
minutes or seconds is as much as sixty. -/
def ShowsTotal (es : List Event) (axis : Axis) (unit : MeasureUnit) (total : ℚ) : Prop :=
  ∃ degrees minutes, shown es axis .degree = some degrees ∧
    shown es axis .minute = some minutes ∧ minutes < 60 ∧
    match unit with
    | .minute => degrees * 60 + minutes = total
    | _ => ∃ seconds, shown es axis .second = some seconds ∧ seconds < 60 ∧
      degrees * 3600 + minutes * 60 + seconds = total

theorem sixtiesRest_eq {total s : ℚ} {k : ℤ} (h : total = k * 60 + s) (h0 : 0 ≤ s) (h60 : s < 60) :
    sixtiesRest total = s := by
  have hfloor : ⌊total / 60⌋ = k := by
    rw [Int.floor_eq_iff, le_div_iff₀ (by norm_num), div_lt_iff₀ (by norm_num)]
    constructor <;> linarith
  rw [sixtiesRest, hfloor, h]
  ring

/-- Up to fourteen fraction digits the finest part is kept. -/
theorem kept_of_le {places : ℕ} (hp : places ≤ 14) (x : ℚ) : Kept places (toPlaces places x) := by
  obtain ⟨n, hn⟩ := exists_toPlaces_mul_eq places x
  generalize toPlaces places x = total at hn
  -- taking whole sixties away leaves a number below sixty with as many fraction digits
  have hlt : sixtiesRest total < 60 := by
    have := Int.lt_floor_add_one (total / 60)
    rw [div_lt_iff₀ (by norm_num)] at this
    unfold sixtiesRest
    linarith
  refine toPlaces_nearestDouble hp (n := n - 60 * ⌊total / 60⌋ * 10 ^ places) ?_ (by linarith)
  rw [sixtiesRest, sub_mul, hn]
  push_cast
  rfl

section Total

variable {pattern : Text} {body : List Node} {location : Location} {es : List Event} {axis : Axis}
  {negative : Bool} {m : Magnitude} {minutes : Specifier}

/-- The shown numbers of an angle with minutes add up to its size, rounded once, exactly if the
finest part is kept. -/
theorem showsTotal_iff_kept (hc : compile pattern = .ok body) (hw : Writes location body es)
    (hx : location.component axis = some (.finite negative m))
    (hm : fieldOf? (Leaf.specifiers (leavesOf body)) axis .minute = some minutes)
    (hshows : Shows body es axis) :
    let finest := finestOf (Leaf.specifiers (leavesOf body)) axis minutes
    let total := toPlaces finest.fractionDigits (Angle.measure m finest.quantity.unit)
    ShowsTotal es axis finest.quantity.unit total ↔ Kept finest.fractionDigits total := by
  intro finest total
  obtain ⟨d, s, hd, h0, h60, hparts⟩ := angle_shown hc hw hx hm hshows
  rcases hparts with ⟨hu, hsum, hminute⟩ | ⟨hu, k, hk, hsum, hminute, hsecond⟩
  · have hsum : total = d * 60 + s := hsum
    have hrest : sixtiesRest total = s := sixtiesRest_eq (k := d) (by exact_mod_cast hsum) h0 h60
    rw [Kept, hrest, show finest.quantity.unit = .minute from hu]
    constructor
    · rintro ⟨degrees, minutes, hdeg, hmin, -, heq⟩
      rw [hd] at hdeg
      rw [hminute] at hmin
      cases hdeg
      cases hmin
      linarith
    · intro hkept
      exact ⟨d, s, hd, by rw [hminute]; exact congrArg some hkept, h60, hsum.symm⟩
  · have hsum : total = d * 3600 + k * 60 + s := hsum
    have hk60 : (k : ℚ) < 60 := by exact_mod_cast hk
    have hrest : sixtiesRest total = s :=
      sixtiesRest_eq (k := d * 60 + k) (by push_cast; linarith) h0 h60
    rw [Kept, hrest, show finest.quantity.unit = .second from hu]
    constructor
    · rintro ⟨degrees, minutes, hdeg, hmin, -, seconds, hsec, -, heq⟩
      rw [hd] at hdeg
      rw [hminute] at hmin
      rw [hsecond] at hsec
      cases hdeg
      cases hmin
      cases hsec
      linarith
    · intro hkept
      exact ⟨d, k, hd, hminute, hk60, s, by rw [hsecond]; exact congrArg some hkept, h60,
        hsum.symm⟩

end Total

/-- An angle that is shown with minutes adds up to its size, rounded once, with no part as much as
sixty, exactly if the finest part is kept on its way through a double, and up to fourteen fraction
digits it is. -/
theorem rounded_angle {pattern : Text} {f : Formatter} (hf : Formatter.ofPattern pattern = .ok f)
    {location : Location} {text : Text} (ht : f.format location = .ok text) {axis : Axis}
    {negative : Bool} {m : Magnitude}
    (hx : location.component axis = some (.finite negative m)) {minutes : Specifier}
    (hm : fieldOf? (Leaf.specifiers (leavesOf f.body)) axis .minute = some minutes) :
    ∃ es, Writes location f.body es ∧ textOf es = text ∧ (Shows f.body es axis →
      let finest := finestOf (Leaf.specifiers (leavesOf f.body)) axis minutes
      let total := toPlaces finest.fractionDigits (Angle.measure m finest.quantity.unit)
      (ShowsTotal es axis finest.quantity.unit total ↔ Kept finest.fractionDigits total) ∧
        (finest.fractionDigits ≤ 14 → Kept finest.fractionDigits total)) := by
  obtain ⟨es, hes, rfl⟩ := format_eq_ok_iff.1 ht
  have hc := (ofPattern_eq_ok_iff.1 hf).1
  exact ⟨es, hes, rfl, fun hshows => ⟨showsTotal_iff_kept hc hes hx hm hshows,
    fun hp => kept_of_le hp _⟩⟩

/-- The parts of an angle, down to seconds with `places + 1` fraction digits, and spaces between
them. -/
def degreesMinutesSeconds (places : ℕ) : List Leaf := [
  .field ⟨.whole .degreeOfLatitude 0, false, some ⟨.second, places + 1⟩⟩,
  .literal (Text.lit " "),
  .field ⟨.whole .minuteOfLatitude 0, false, some ⟨.second, places + 1⟩⟩,
  .literal (Text.lit " "),
  .field ⟨.fractional .secondOfLatitude 0 .point places, false, some ⟨.second, places + 1⟩⟩]

/-- What is written for one minute with fourteen fraction digits of seconds. -/
def oneMinute : List Event := List.zipWith .leaf (degreesMinutesSeconds 13)
  [Text.lit "0", Text.lit " ", Text.lit "1", Text.lit " ", Text.lit "0.00000000000000"]

/-- A sixtieth of a degree, as a double, is less than a minute; with fourteen fraction digits it is
shown as one minute. -/
theorem rounded_angle_minute :
    ∃ f es minutes m, Formatter.ofPattern (Text.lit "D M S.SSSSSSSSSSSSSS") = .ok f ∧
      fieldOf? (Leaf.specifiers (leavesOf f.body)) .latitude .minute = some minutes ∧
      finestOf (Leaf.specifiers (leavesOf f.body)) .latitude minutes =
        .fractional .secondOfLatitude 0 .point 13 ∧
      Double.ofRatio false 1 60 = .finite false m ∧
      f.format (.ofLatitude (.ofRatio false 1 60)) = .ok (Text.lit "0 1 0.00000000000000") ∧
      Writes (.ofLatitude (.ofRatio false 1 60)) f.body es ∧
      textOf es = Text.lit "0 1 0.00000000000000" ∧ Shows f.body es .latitude ∧
      Kept 14 (toPlaces 14 (Angle.measure m .second)) ∧
      ShowsTotal es .latitude .second (toPlaces 14 (Angle.measure m .second)) := by
  obtain ⟨f, hf, hbody⟩ : ∃ f, Formatter.ofPattern (Text.lit "D M S.SSSSSSSSSSSSSS") = .ok f ∧
      f.body = (degreesMinutesSeconds 13).map .leaf :=
    ⟨⟨_, (degreesMinutesSeconds 13).map .leaf⟩,
      ofPattern_eq_ok_iff.2 ⟨by decide +kernel, rfl⟩, rfl⟩
  obtain ⟨m, hx⟩ := Double.exists_eq_of_isFinite
    (show (Double.ofRatio false 1 60).isFinite = true by decide +kernel)
  have hcomponent : (Location.ofLatitude (.ofRatio false 1 60)).component .latitude
      = some (.finite false m) := by
    rw [← hx]
    rfl
  have hm : fieldOf? (Leaf.specifiers (leavesOf f.body)) .latitude .minute =
      some (.whole .minuteOfLatitude 0) := by
    rw [hbody]
    decide
  have hfinest : finestOf (Leaf.specifiers (leavesOf f.body)) .latitude
      (.whole .minuteOfLatitude 0) = .fractional .secondOfLatitude 0 .point 13 := by
    rw [hbody]
    decide
  have hwrites : Writes (.ofLatitude (.ofRatio false 1 60)) f.body oneMinute := by
    rw [hbody]
    exact writes_map_leaf (by decide +kernel)
  have ht := format_eq_ok_iff.2 ⟨_, hwrites, rfl⟩
  obtain ⟨es, hes, htext, htotal⟩ := rounded_angle hf ht hcomponent hm
  obtain rfl := hes.unique hwrites
  have hshows : Shows f.body oneMinute .latitude := by
    rw [hbody]
    decide +kernel
  obtain ⟨hiff, hkept⟩ := htotal hshows
  rw [hfinest] at hiff hkept
  have hkept := hkept (by decide)
  exact ⟨f, _, _, m, hf, hm, hfinest, hx, ht, hes, htext, hshows, hkept, hiff.2 hkept⟩

/-- With fifteen fraction digits it is shown as no minute and sixty seconds. -/
theorem rounded_angle_sixty :
    ∃ f es, Formatter.ofPattern (Text.lit "D M S.SSSSSSSSSSSSSSS") = .ok f ∧
      f.format (.ofLatitude (.ofRatio false 1 60)) = .ok (Text.lit "0 0 60.000000000000000") ∧
      Writes (.ofLatitude (.ofRatio false 1 60)) f.body es ∧ Shows f.body es .latitude ∧
      shown es .latitude .second = some 60 := by
  have hwrites : Writes (.ofLatitude (.ofRatio false 1 60)) ((degreesMinutesSeconds 14).map .leaf)
      (List.zipWith .leaf (degreesMinutesSeconds 14)
        [Text.lit "0", Text.lit " ", Text.lit "0", Text.lit " ",
          Text.lit "60.000000000000000"]) :=
    writes_map_leaf (by decide +kernel)
  exact ⟨⟨_, (degreesMinutesSeconds 14).map .leaf⟩, _,
    ofPattern_eq_ok_iff.2 ⟨by decide +kernel, rfl⟩, format_eq_ok_iff.2 ⟨_, hwrites, rfl⟩, hwrites,
    by decide +kernel, by decide +kernel⟩

end GeoPattern
