/-
Why a leaf is not written. A field of a compiled tree whose component is finite is refused for one
reason only: a number on its way to the text needs more than 28 digits. None does as long as the
component and the fraction digits of the pattern leave four of those digits free. What a location is
combined with is refused before anything of it is written.
Main statements: `render_eq_error`, `exists_render`, `format_eq_error`,
`formatSubject_eq_combined_iff`.
-/
import GeoPattern.Proofs.Layout.Angle
import GeoPattern.Proofs.Number.Rendering

namespace GeoPattern

open Node

/-! ## Angles -/

namespace Angle

variable {m : Magnitude} {unit : MeasureUnit} {places : ℕ} {t : Decimal} {p : Parts}

/-- No part is greater than the total. -/
theorem part_le (h : split m unit places = .ok p) :
    ∃ t, total m unit places = .ok t ∧ ∀ u, (p.part u).toRat ≤ t.toRat := by
  unfold split at h
  rcases ht : total m unit places with e | t
  · rw [ht] at h; cases h
  rw [ht] at h
  refine ⟨t, rfl, fun u => ?_⟩
  have h0 : Decimal.zero.toRat ≤ t.toRat := by simpa using t.toRat_nonneg
  cases unit with
  | degree =>
    cases h
    cases u
    · exact le_rfl
    all_goals exact h0
  | minute =>
    rcases hd : t.divMod 60 with e | ⟨d, r⟩ <;> simp only [bind, Except.bind, hd] at h <;> cases h
    obtain ⟨hdt, hrt⟩ := Decimal.divMod_le (by norm_num) hd
    cases u
    · simpa [Parts.part] using hdt
    · exact hrt
    all_goals exact h0
  | second | meter =>
    rcases hd : t.divMod 3600 with e | ⟨d, r⟩
    · simp only [bind, Except.bind, hd] at h; cases h
    rcases hk : r.divMod 60 with e | ⟨k, s⟩ <;> simp only [bind, Except.bind, hd, hk] at h <;>
      cases h
    obtain ⟨hdt, hrt⟩ := Decimal.divMod_le (by norm_num) hd
    obtain ⟨hkr, hsr⟩ := Decimal.divMod_le (by norm_num) hk
    cases u
    · simpa [Parts.part] using hdt
    · simpa [Parts.part] using hkr.trans hrt
    all_goals exact hsr.trans hrt

theorem measure_le (hu : unit = .minute ∨ unit = .second) (hy : m.toRat * unit.perDegree < 10 ^ 28) :
    measure m unit ≤ m.toRat * unit.perDegree + 1 / 2 := by
  rw [measure_eq m hu]
  have hten : (10 : ℚ) ^ lastDigit Decimal.precision (m.toRat * unit.perDegree) ≤ 1 :=
    zpow_le_one_of_nonpos₀ (by norm_num) (lastDigit_nonpos hy)
  have := (abs_le.1 (abs_toSignificant_sub_le Decimal.precision (m.toRat * unit.perDegree))).2
  linarith

theorem exists_total (hu : unit = .minute ∨ unit = .second) (hp : places ≤ 28)
    (h : measure m unit * 10 ^ places + 1 ≤ 10 ^ 28) : ∃ t, total m unit places = .ok t := by
  have hm := Decimal.coarse_ofMagnitude m
  rw [measure_eq m hu, ← Decimal.toRat_ofMagnitude, ← Decimal.toRat_times] at h
  rcases hu with rfl | rfl <;> exact Decimal.exists_quantize (hm.times _) hp h

/-- A part of at most 28 digits is a finite double, and not more than twice as much. -/
theorem exists_toDouble {x : Decimal} (h : x.toRat < 10 ^ 28) :
    ∃ k : Magnitude, x.toDouble false = .finite false k ∧ k.toRat ≤ 2 * x.toRat := by
  obtain ⟨bound, hbound⟩ := Magnitude.exists_two_pow (k := 100) (by norm_num)
  have hle : x.toRat ≤ bound.toRat := by
    rw [hbound]
    exact h.le.trans (by norm_num)
  obtain ⟨k, hk, hkr⟩ := Decimal.exists_toDouble false hle
  refine ⟨k, hk, ?_⟩
  rw [hkr]
  -- zero is a double, and no double is closer
  have hnear := abs_nearestDouble_sub_le_abs x.toRat_nonneg Magnitude.zero.spacing_dvd
  have hzero : ((Magnitude.zero.units : ℕ) : ℚ) / unitsPerOne = 0 := Magnitude.toRat_zero
  rw [hzero, zero_sub, abs_neg, abs_of_nonneg x.toRat_nonneg] at hnear
  linarith [le_abs_self (nearestDouble x.toRat - x.toRat)]

end Angle

/-! ## Fields -/

namespace Field

/-- What the parts of an angle are rounded to: the resolution, or the field itself without one. -/
def resolved (f : Field) : Resolution :=
  f.resolution.getD ⟨f.specifier.quantity.unit, f.specifier.fractionDigits⟩

variable {f : Field} {negative : Bool} {m : Magnitude}

theorem unsignedValue_eq (f : Field) (raw : Double) : f.unsignedValue raw =
    if f.specifier.quantity.unit = .meter then .ok raw.abs
    else if f.resolved.unit = .degree then
      .ok (if f.resolved.digits = 0 then raw.abs.truncate else raw.abs)
    else
      match Angle.parts raw f.resolved.unit f.resolved.digits with
      | .ok parts => .ok (partOf f.specifier.quantity.unit parts)
      | .error refusal => .error (.arithmetic refusal) := rfl

theorem value_of_signed (hs : f.specifier.quantity.isSigned = true) (raw : Double) :
    f.value raw = .ok raw := by
  simp [value, hs]

theorem value_of_unsigned (hs : f.specifier.quantity.isSigned = false) :
    f.value (.finite negative m) = f.unsignedValue (.finite negative m) := by
  simp [value, hs, Double.isFinite]

/-- What a field takes of a finite component: the component with its sign or without it, its whole
part, or the double of a part of its angle. -/
theorem value_cases (f : Field) (negative : Bool) (m : Magnitude) :
    (∃ sign k, f.value (.finite negative m) = .ok (.finite sign k) ∧ k.toRat ≤ m.toRat) ∨
    (f.specifier.quantity.unit ≠ .meter ∧ f.resolved.unit ≠ .degree ∧
      f.value (.finite negative m) =
        match Angle.split m f.resolved.unit f.resolved.digits with
        | .ok p => .ok ((p.part f.specifier.quantity.unit).toDouble false)
        | .error refusal => .error (.arithmetic refusal)) := by
  rcases hs : f.specifier.quantity.isSigned with - | -
  · rw [value_of_unsigned hs, unsignedValue_eq]
    split
    · exact .inl ⟨false, m, rfl, le_rfl⟩
    rename_i hm
    split
    · split
      · obtain ⟨k, hk, hle⟩ := Double.exists_truncate false m
        exact .inl ⟨false, k, congrArg Except.ok hk, hle⟩
      · exact .inl ⟨false, m, rfl, le_rfl⟩
    rename_i hd
    refine .inr ⟨hm, hd, ?_⟩
    unfold Angle.parts
    dsimp only
    rcases Angle.split m f.resolved.unit f.resolved.digits with e | p
    · rfl
    · exact congrArg Except.ok (partOf_parts (Decimal.toDouble false) _ p)
  · exact .inl ⟨negative, m, value_of_signed hs _, le_rfl⟩

end Field

section Compile

variable {pattern : Text} {body : List Node} {location : Location} {f : Field}
  {negative : Bool} {m : Magnitude}

/-- A field is rounded to the unit and the fraction digits of some field, for an angle to a unit of
angle. -/
theorem exists_resolved (hc : compile pattern = .ok body) (hf : .field f ∈ leavesOf body) :
    ∃ s ∈ Leaf.specifiers (leavesOf body),
      f.resolved = ⟨s.quantity.unit, s.fractionDigits⟩ ∧
      (f.specifier.quantity.unit ≠ .meter → s.quantity.unit ≠ .meter) := by
  rcases hr : f.resolution with - | r
  · exact ⟨f.specifier, mem_specifiers hf, by rw [Field.resolved, hr]; rfl, id⟩
  · rw [resolution_of_compile hc hf] at hr
    obtain ⟨hsome, -, -⟩ :=
      @resolutionOf_spec (Leaf.specifiers (leavesOf body)) f.specifier.quantity.axis none
    rcases hsome r hr with hnone | ⟨s, hs, ⟨-, -, hm⟩, rfl⟩
    · cases hnone
    · refine ⟨s, hs, ?_, fun _ => hm⟩
      rw [Field.resolved, resolution_of_compile hc hf, hr]
      rfl

/-- A field is refused where a finite component needs too many digits, or where the component is no
finite number. -/
theorem render_eq_error (hc : compile pattern = .ok body) {l : Leaf} (hl : l ∈ leavesOf body)
    {e : FormatError} (h : l.render location = .error e) :
    ∃ f raw, l = .field f ∧ location.component f.specifier.quantity.axis = some raw ∧
      (raw.isFinite = true ∧ e = .arithmetic .precision ∨
        raw.isFinite = false ∧ e = .notFinite raw f.specifier) := by
  cases l with
  | literal t => cases h
  | sign mark =>
    unfold Leaf.render at h
    dsimp only at h
    split at h <;> cases h
  | field f =>
    unfold Leaf.render at h
    dsimp only at h
    split at h
    · cases h
    rename_i raw hraw
    refine ⟨f, raw, rfl, hraw, ?_⟩
    rcases hfin : raw.isFinite with - | -
    · have hv : f.value raw = .ok raw := by simp [Field.value, hfin]
      have hw : f.specifier.render raw = .error (.notFinite raw f.specifier) := by
        cases raw with
        | finite negative m => cases hfin
        | nan => rfl
        | infinite negative => rfl
      simp only [hv, hw, bind, Except.bind] at h
      cases h
      exact .inr ⟨rfl, rfl⟩
    · obtain ⟨negative, m, rfl⟩ := Double.exists_finite hfin
      refine .inl ⟨rfl, ?_⟩
      -- a number that a field takes is finite, so only its digits can be too many
      have hwrite {value : Double} (hvalue : ∃ sign k, value = .finite sign k)
          (hv : f.value (.finite negative m) = .ok value) : e = .arithmetic .precision := by
        obtain ⟨sign, k, rfl⟩ := hvalue
        rcases hw : f.specifier.render (.finite sign k) with e' | w
        · simp only [hv, hw, bind, Except.bind] at h
          cases h
          exact Specifier.render_finite_eq_error hw
        · simp only [hv, hw, bind, Except.bind] at h
          cases h
      rcases f.value_cases negative m with ⟨sign, k, hv, -⟩ | ⟨-, -, hv⟩
      · exact hwrite ⟨sign, k, rfl⟩ hv
      · obtain ⟨s, -, hres, -⟩ := exists_resolved hc hl
        rw [hres] at hv
        rcases hp : Angle.split m s.quantity.unit s.fractionDigits with refusal | p
        · simp only [hp] at hv
          simp only [hv, bind, Except.bind] at h
          cases h
          rw [Angle.split_eq_error hp]
        · simp only [hp] at hv
          obtain ⟨t, ht, hpart⟩ := Angle.part_le hp
          have hlt := (hpart f.specifier.quantity.unit).trans_lt (Angle.toRat_total_lt ht)
          obtain ⟨k, hk, -⟩ := Angle.exists_toDouble hlt
          exact hwrite ⟨false, k, hk⟩ hv

/-! ## Room for the digits -/

/-- A magnitude, with a count of fraction digits, leaves four of 28 digits free. -/
def Magnitude.HasRoom (m : Magnitude) (places : ℕ) : Prop :=
  (m.toRat + 1) * 10 ^ (places + 4) ≤ 10 ^ 28

theorem Magnitude.HasRoom.places_le {places : ℕ} (h : m.HasRoom places) : places ≤ 24 := by
  have hm := m.toRat_nonneg
  have hten := ten_pow_pos (places + 4)
  have hone : (10 : ℚ) ^ (places + 4) ≤ 10 ^ 28 := by
    unfold HasRoom at h
    nlinarith
  have := (pow_le_pow_iff_right₀ (by norm_num : (1 : ℚ) < 10)).1 hone
  omega

/-- The four digits leave room for a number of seconds, twice as great. -/
theorem Magnitude.HasRoom.add_one_le {places digits : ℕ} (h : m.HasRoom places)
    (hd : digits ≤ places) {x : ℚ} (hx : x ≤ 7200 * (m.toRat + 1)) :
    x * 10 ^ digits + 1 ≤ 10 ^ 28 := by
  have hm := m.toRat_nonneg
  have hten : (10 : ℚ) ^ digits ≤ 10 ^ places := pow_le_pow_right₀ (by norm_num) hd
  have hone : (1 : ℚ) ≤ 10 ^ places := one_le_pow₀ (by norm_num)
  unfold HasRoom at h
  rw [pow_add] at h
  calc x * 10 ^ digits + 1
      ≤ 7200 * (m.toRat + 1) * 10 ^ digits + 1 := by gcongr
    _ ≤ 7200 * (m.toRat + 1) * 10 ^ places + (m.toRat + 1) * 10 ^ places := by
      gcongr
      nlinarith
    _ ≤ (m.toRat + 1) * (10 ^ places * 10 ^ 4) := by nlinarith
    _ ≤ 10 ^ 28 := h

/-- The number that a field takes of a component with room is at most 7200 times as much as the
component and one more. -/
theorem Field.exists_value (hc : compile pattern = .ok body) (hf : .field f ∈ leavesOf body)
    {places : ℕ} (hplaces : ∀ s ∈ Leaf.specifiers (leavesOf body), s.fractionDigits ≤ places)
    (hroom : m.HasRoom places) (negative : Bool) :
    ∃ sign k, f.value (.finite negative m) = .ok (.finite sign k) ∧
      k.toRat ≤ 7200 * (m.toRat + 1) := by
  have hm := m.toRat_nonneg
  rcases f.value_cases negative m with ⟨sign, k, hv, hk⟩ | ⟨hunit, hdegree, hv⟩
  · exact ⟨sign, k, hv, by linarith⟩
  obtain ⟨s, hs, hres, hmeter⟩ := exists_resolved hc hf
  rw [hres] at hv hdegree
  have hu : s.quantity.unit = .minute ∨ s.quantity.unit = .second := by
    have := hmeter hunit
    cases h : s.quantity.unit with
    | degree => exact absurd h hdegree
    | minute => exact .inl rfl
    | second => exact .inr rfl
    | meter => exact absurd h this
  have hsize : m.toRat * s.quantity.unit.perDegree ≤ 3600 * m.toRat := by
    rcases hu with h | h <;> rw [h, MeasureUnit.perDegree] <;> push_cast <;> linarith
  have hlt : m.toRat * s.quantity.unit.perDegree < 10 ^ 28 := by
    have := hroom.add_one_le (Nat.zero_le _) (x := m.toRat * s.quantity.unit.perDegree) (by linarith)
    linarith
  -- the total and each of its parts are at most 3600 times as much
  obtain ⟨t, ht⟩ := Angle.exists_total hu ((hplaces s hs).trans (hroom.places_le.trans (by omega)))
    (hroom.add_one_le (hplaces s hs) ((Angle.measure_le hu hlt).trans (by linarith)))
  obtain ⟨p, hp⟩ := Angle.exists_split ht
  obtain ⟨t', ht', hpart⟩ := Angle.part_le hp
  obtain rfl : t = t' := Except.ok.inj (ht.symm.trans ht')
  have htotal : t.toRat ≤ m.toRat * s.quantity.unit.perDegree + 1 := by
    rw [Angle.toRat_total (Angle.ne_meter_of_finer hu) ht]
    exact Angle.toPlaces_measure_le hu hlt _
  have hpart := hpart f.specifier.quantity.unit
  obtain ⟨k, hk, hle⟩ := Angle.exists_toDouble (hpart.trans_lt (Angle.toRat_total_lt ht))
  simp only [hp, hk] at hv
  exact ⟨false, k, hv, by linarith⟩

/-- A field is written if its component, with the fraction digits of the pattern, leaves four of 28
digits free. -/
theorem exists_render (hc : compile pattern = .ok body) (hf : .field f ∈ leavesOf body)
    (hx : location.component f.specifier.quantity.axis = some (.finite negative m)) {places : ℕ}
    (hplaces : ∀ s ∈ Leaf.specifiers (leavesOf body), s.fractionDigits ≤ places)
    (hroom : m.HasRoom places) : ∃ w, (Leaf.field f).render location = .ok (some w) := by
  obtain ⟨sign, k, hv, hk⟩ := Field.exists_value hc hf hplaces hroom negative
  have hd := hplaces _ (mem_specifiers hf)
  obtain ⟨w, hw⟩ := Specifier.exists_render (hd.trans (hroom.places_le.trans (by omega)))
    (hroom.add_one_le hd hk) sign
  exact ⟨w, Leaf.render_field_eq_ok_iff.2 ⟨_, _, hx, hv, hw⟩⟩

end Compile

/-! ## Formatters -/

/-- What refuses a sequence is one of its leaves. -/
theorem exists_leaf_of_error {location : Location} {nodes : List Node} {e : FormatError}
    (h : renderAll location nodes = .error e) :
    ∃ l ∈ leavesOf nodes, l.render location = .error e := by
  induction nodes using forest_induction with
  | nil => cases h
  | leaf l rest ih =>
    rw [leavesOf, leaves, List.singleton_append]
    rcases render_or_renderAll_eq_error h with h | h
    · exact ⟨l, List.mem_cons_self, h⟩
    · obtain ⟨l', hl', he⟩ := ih h
      exact ⟨l', List.mem_cons_of_mem _ hl', he⟩
  | group body rest ihb ih =>
    rcases render_or_renderAll_eq_error h with h | h
    · rw [render_group] at h
      rcases hb : renderAll location body with e' | t <;> rw [hb] at h <;> cases h
      obtain ⟨l', hl', he⟩ := ihb hb
      exact ⟨l', List.mem_append_left _ hl', he⟩
    · obtain ⟨l', hl', he⟩ := ih h
      exact ⟨l', List.mem_append_right _ hl', he⟩
  | sequence body rest ihb ih =>
    rcases render_or_renderAll_eq_error h with h | h
    · obtain ⟨l', hl', he⟩ := ihb h
      exact ⟨l', List.mem_append_left _ hl', he⟩
    · obtain ⟨l', hl', he⟩ := ih h
      exact ⟨l', List.mem_append_right _ hl', he⟩

/-- A number of a location takes more digits than there are, whatever count of fraction digits the
fields keep to. -/
def Crowded (body : List Node) (location : Location) : Prop :=
  ∃ s ∈ Leaf.specifiers (leavesOf body), ∃ negative m,
    location.component s.quantity.axis = some (.finite negative m) ∧
      ∀ places, (∀ t ∈ Leaf.specifiers (leavesOf body), t.fractionDigits ≤ places) →
        ¬ m.HasRoom places

/-- Formatting is refused with a message about the location, or since a number of it takes more
than 28 digits. -/
theorem format_eq_error {pattern : Text} {f : Formatter}
    (hf : Formatter.ofPattern pattern = .ok f) {location : Location} {e : FormatError}
    (h : f.format location = .error e) :
    e.isExpected = true ∨ e = .arithmetic .precision ∧ Crowded f.body location := by
  have hc := (ofPattern_eq_ok_iff.1 hf).1
  unfold Formatter.format at h
  rcases hr : renderAll location f.body with e' | - | t
  · rw [hr] at h
    cases h
    obtain ⟨l, hl, he⟩ := exists_leaf_of_error hr
    obtain ⟨g, raw, rfl, hx, ⟨hfin, rfl⟩ | ⟨-, rfl⟩⟩ := render_eq_error hc hl he
    · obtain ⟨negative, m, rfl⟩ := Double.exists_finite hfin
      refine .inr ⟨rfl, _, mem_specifiers hl, negative, m, hx, fun places hplaces hroom => ?_⟩
      -- with room for its digits the field would have been written
      obtain ⟨w, hw⟩ := exists_render hc hl hx hplaces hroom
      rw [hw] at he
      cases he
    · exact .inl rfl
  · rw [hr] at h
    cases h
    exact .inl rfl
  · rw [hr] at h
    cases h

/-! ## Subjects -/

/-- A latitude is written with the components that come with it. -/
theorem formatSubject_latitude (f : Formatter) (latitude longitude elevation : Option Measure) :
    f.formatSubject (.latitude latitude) longitude elevation =
      f.formatMeasures latitude longitude elevation := by
  unfold Formatter.formatSubject Formatter.Subject.completed Formatter.formatMeasures
  dsimp only
  rcases Location.ofMeasures latitude longitude elevation with refusal | location <;> rfl

/-- A subject is refused for what it is combined with exactly if it is a whole location, and a
longitude or an elevation comes with it. -/
theorem formatSubject_eq_combined_iff {pattern : Text} {f : Formatter}
    (hf : Formatter.ofPattern pattern = .ok f) {subject : Formatter.Subject}
    {longitude elevation : Option Measure} :
    f.formatSubject subject longitude elevation = .error .combined ↔
      (∃ location, subject = .whole location) ∧ (longitude.isSome ∨ elevation.isSome) := by
  have hne (location : Location) : f.format location ≠ .error .combined := by
    intro h
    rcases format_eq_error hf h with hexpected | ⟨harithmetic, -⟩
    · cases hexpected
    · cases harithmetic
  constructor
  · intro h
    cases subject with
    | whole location =>
      refine ⟨⟨location, rfl⟩, ?_⟩
      by_contra hc
      unfold Formatter.formatSubject Formatter.Subject.completed at h
      dsimp only at h
      rw [if_neg hc] at h
      exact hne location h
    | latitude degrees =>
      rw [formatSubject_latitude, Formatter.formatMeasures] at h
      split at h
      · exact absurd h (hne _)
      · cases h
  · rintro ⟨⟨location, rfl⟩, hc⟩
    unfold Formatter.formatSubject Formatter.Subject.completed
    dsimp only
    rw [if_pos hc]
    rfl

end GeoPattern
