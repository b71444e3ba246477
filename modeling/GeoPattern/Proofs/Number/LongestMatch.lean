/-
Reading a number is longest match. The grammar of a specifier admits the numerals with at least one
digit: a sign where one may stand, digits, and, where the specifier has a fraction, the separator
with digits behind it; a bounded field has no more digits than it writes. What is read at a cursor
is the longest prefix of the text that the grammar admits; where it admits none, nothing is read.
Main statements: `scan_of_admits`, `read_longest`.
-/
import GeoPattern.Proofs.Number.Scan
import GeoPattern.Reading.Cursor

namespace GeoPattern

/-- The longest prefix of a text with a property. -/
structure Text.IsLongest (P : Text → Prop) (w rest : Text) : Prop where
  holds : P w
  front : w <+: rest
  longest : ∀ v, P v → v <+: rest → v <+: w

theorem Text.IsLongest.unique {P : Text → Prop} {w w' rest : Text} (h : IsLongest P w rest)
    (h' : IsLongest P w' rest) : w = w' :=
  (h'.longest w h.holds h.front).eq_of_length_le (h.longest w' h'.holds h'.front).length_le

/-- A bound on a length, as a limit or none. -/
theorem le_of_limit {bounded : Bool} {length limit k : ℕ} (h : bounded = true → length ≤ limit)
    (hk : (if bounded then some limit else none) = some k) : length ≤ k := by
  cases bounded with
  | false => cases hk
  | true =>
    cases hk
    exact h rfl

/-! ## Numerals -/

namespace Numeral

variable {n n' : Numeral}

/-- `x` is the number that a numeral denotes: the double nearest to it, or an infinity where that
leaves the finite range. -/
def Denotes (n : Numeral) (x : Double) : Prop :=
  (∃ m, x = .finite n.isNegative m ∧ m.toRat = nearestDouble n.toRat) ∨
    x = .infinite n.isNegative ∧ (2 : ℚ) ^ exponentLimit / unitsPerOne ≤ nearestDouble n.toRat

theorem denotes_value (n : Numeral) : n.Denotes n.value :=
  n.decimal.toDouble_cases n.isNegative

/-- The digits of a numeral may go on, on both sides of the separator. -/
structure Extends (n' n : Numeral) : Prop where
  sign : n'.sign = n.sign
  integer : n.integer <+: n'.integer
  fraction : n.fraction <+: n'.fraction

theorem Extends.hasDigits (h : n'.Extends n) (hd : n.hasDigits = true) : n'.hasDigits = true := by
  unfold Numeral.hasDigits at *
  simp only [Bool.or_eq_true, bne_iff_ne, ne_eq] at *
  rcases hd with hi | hf
  · exact .inl fun hnil => hi (List.prefix_nil.1 (hnil ▸ h.integer))
  · exact .inr fun hnil => hf (List.prefix_nil.1 (hnil ▸ h.fraction))

theorem Extends.length_le (h : n'.Extends n) : n.length ≤ n'.length := by
  have hint := h.integer.length_le
  have hfrac := h.fraction.length_le
  simp only [Numeral.length, h.sign, ← List.length_eq_zero_iff]
  split <;> split <;> omega

theorem Extends.eq_of_length_le (h : n'.Extends n) (hle : n'.length ≤ n.length) : n' = n := by
  have hint := h.integer.length_le
  have hfrac := h.fraction.length_le
  simp only [Numeral.length, h.sign, ← List.length_eq_zero_iff] at hle
  -- neither run of digits is shorter, so none is longer
  have hlengths : n.integer.length = n'.integer.length ∧
      n.fraction.length = n'.fraction.length := by
    split at hle <;> split at hle <;> omega
  have hsign := h.sign
  have hinteger := h.integer.eq_of_length hlengths.1
  have hfraction := h.fraction.eq_of_length hlengths.2
  cases n
  cases n'
  dsimp only at hsign hinteger hfraction
  rw [hsign, hinteger, hfraction]

end Numeral

/-! ## The grammar -/

namespace Specifier

/-- The numerals that a specifier reads. -/
structure Admits (s : Specifier) (signed bounded : Bool) (n : Numeral) : Prop where
  scanned : n.Scanned signed
  hasDigits : n.hasDigits = true
  whole : s.fractionDigits = 0 → n.fraction = []
  integer_le : bounded = true → n.integer.length ≤ s.integerDigits
  fraction_le : bounded = true → n.fraction.length ≤ s.fractionDigits

/-- The texts that a specifier reads. -/
def IsNumber (s : Specifier) (signed bounded : Bool) (w : Text) : Prop :=
  ∃ n, s.Admits signed bounded n ∧ n.spelledWith s.separator = w

variable {s : Specifier} {signed bounded : Bool} {n n' : Numeral} {rest : Text}

theorem length_scanFraction_le (k : ℕ) (rest : Text) :
    (s.scanFraction (some k) rest).length ≤ k := by
  unfold scanFraction
  split
  · exact Nat.zero_le _
  split
  · exact length_digitRun_le _ _
  · exact Nat.zero_le _

/-- What is scanned is in the grammar if it has any digit. -/
theorem admits_scan (h : (s.scan signed bounded rest).hasDigits = true) :
    s.Admits signed bounded (s.scan signed bounded rest) where
  scanned := (scan_spec s signed bounded rest).1
  hasDigits := h
  whole hf := scanFraction_of_whole hf _ _
  integer_le hb := by
    subst hb
    exact length_digitRun_le _ _
  fraction_le hb := by
    subst hb
    exact length_scanFraction_le _ _

/-- In front of any text a numeral of the grammar is scanned, and more digits perhaps. -/
theorem scan_of_admits (h : s.Admits signed bounded n) (rest : Text) :
    (s.scan signed bounded (n.spelledWith s.separator ++ rest)).Extends n := by
  have hint : ∀ k, (if bounded then some s.integerDigits else none) = some k →
      n.integer.length ≤ k := fun _ => le_of_limit h.integer_le
  have hfrac : ∀ k, (if bounded then some s.fractionDigits else none) = some k →
      n.fraction.length ≤ k := fun _ => le_of_limit h.fraction_le
  unfold scan
  rw [scanSign_spelledWith h.scanned h.hasDigits]
  refine ⟨rfl, prefix_digitRun h.scanned.integer hint _, ?_⟩
  dsimp only
  by_cases hf : n.fraction = []
  · rw [hf]
    exact List.nil_prefix
  -- the separator ends the digits in front of it
  · have hplaces : s.fractionDigits ≠ 0 := mt h.whole hf
    have hbehind : n.fractionText s.separator ++ rest =
        s.separator.symbol :: (n.fraction ++ rest) := by
      rw [Numeral.fractionText, if_neg hf]
      rfl
    rw [hbehind, digitRun_of_stops h.scanned.integer hint
      (stopsDigits_cons (Numeral.isDigit_separator _) _), List.drop_left, scanFraction,
      if_pos ⟨Nat.pos_of_ne_zero hplaces, rfl⟩]
    exact prefix_digitRun h.scanned.fraction hfrac rest

/-- A text is scanned as the numeral of the grammar that it spells. -/
theorem scan_spelledWith_of_admits (h : s.Admits signed bounded n) :
    s.scan signed bounded (n.spelledWith s.separator) = n := by
  have hext := scan_of_admits h []
  rw [List.append_nil] at hext
  apply hext.eq_of_length_le
  have hfront := (scan_spec s signed bounded (n.spelledWith s.separator)).2.length_le
  rwa [Numeral.length_spelledWith, Numeral.length_spelledWith] at hfront

/-- A text spells one numeral of the grammar at most. -/
theorem Admits.eq_of_spelledWith (h : s.Admits signed bounded n) (h' : s.Admits signed bounded n')
    (he : n'.spelledWith s.separator = n.spelledWith s.separator) : n' = n := by
  rw [← scan_spelledWith_of_admits h, ← scan_spelledWith_of_admits h', he]

/-- What is scanned of a text is its longest prefix in the grammar. -/
theorem isLongest_scan (h : (s.scan signed bounded rest).hasDigits = true) :
    Text.IsLongest (s.IsNumber signed bounded)
      ((s.scan signed bounded rest).spelledWith s.separator) rest where
  holds := ⟨_, admits_scan h, rfl⟩
  front := (scan_spec s signed bounded rest).2
  longest := by
    rintro v ⟨n, hn, rfl⟩ hv
    refine List.prefix_of_prefix_length_le hv (scan_spec s signed bounded rest).2 ?_
    obtain ⟨more, rfl⟩ := hv
    rw [Numeral.length_spelledWith, Numeral.length_spelledWith]
    exact (scan_of_admits hn more).length_le

/-- A text with a prefix in the grammar is scanned with digits. -/
theorem hasDigits_scan_iff :
    (s.scan signed bounded rest).hasDigits = true ↔
      ∃ v, v <+: rest ∧ s.IsNumber signed bounded v := by
  constructor
  · intro h
    exact ⟨_, (isLongest_scan h).front, (isLongest_scan h).holds⟩
  · rintro ⟨_, ⟨more, rfl⟩, n, hn, rfl⟩
    exact (scan_of_admits hn more).hasDigits hn.hasDigits

/-! ## Reading -/

/-- Inside of a text the number is scanned at the cursor. -/
theorem read_eq (s : Specifier) (signed bounded : Bool) {text : Text} {cursor : Cursor}
    (h0 : 0 ≤ cursor.index) (h1 : cursor.index ≤ text.length) :
    s.read signed bounded text cursor =
      let found := s.scan signed bounded (text.drop cursor.index.toNat)
      if found.hasDigits then (.ok found.value, cursor.advance found.length)
      else (.error .mismatch, cursor.fail (.number s)) := by
  have hfrom : text.from? cursor.index = some (text.drop cursor.index.toNat) := by
    rw [Text.from?, if_neg (by omega), if_neg (by omega)]
  unfold read readAt
  rw [if_neg (by omega), hfrom, Option.bind_some, scan?]
  dsimp only
  cases (s.scan signed bounded (text.drop cursor.index.toNat)).hasDigits <;> rfl

/-- A number is read where the text goes on with one, and then the longest one. -/
theorem read_longest (s : Specifier) (signed bounded : Bool) (text : Text) (cursor : Cursor)
    (h0 : 0 ≤ cursor.index) (h1 : cursor.index ≤ text.length) :
    let rest := text.drop cursor.index.toNat
    ((∃ v, v <+: rest ∧ s.IsNumber signed bounded v) →
      ∃ n x, s.Admits signed bounded n ∧
        (∀ n', s.Admits signed bounded n' →
          n'.spelledWith s.separator = n.spelledWith s.separator → n' = n) ∧
        Text.IsLongest (s.IsNumber signed bounded) (n.spelledWith s.separator) rest ∧
        n.Denotes x ∧
        s.read signed bounded text cursor = (.ok x,
          ⟨cursor.index + (n.spelledWith s.separator).length, cursor.failure⟩)) ∧
    ((¬ ∃ v, v <+: rest ∧ s.IsNumber signed bounded v) →
      s.read signed bounded text cursor =
        (.error .mismatch, ⟨cursor.index, some ⟨cursor.index, .number s⟩⟩)) := by
  intro rest
  have hread := read_eq s signed bounded h0 h1
  rw [← hasDigits_scan_iff]
  constructor
  · intro hd
    refine ⟨_, _, admits_scan hd, fun n' hn' => (admits_scan hd).eq_of_spelledWith hn',
      isLongest_scan hd, Numeral.denotes_value _, ?_⟩
    rw [hread, Numeral.length_spelledWith]
    exact if_pos hd
  · intro hd
    rw [hread]
    exact if_neg hd

/-- A bounded field leaves the second fraction digit behind: -12.3 is read. -/
theorem read_longest_bounded :
    0 ≤ (Cursor.start 1).index ∧ (Cursor.start 1).index ≤ (Text.lit "x-12.34").length ∧
      (fractional .latitude 1 .point 0).Admits true true
        ⟨some '-', Text.lit "12", Text.lit "3"⟩ ∧
      Text.IsLongest ((fractional .latitude 1 .point 0).IsNumber true true)
        (Text.lit "-12.3") (Text.lit "-12.34") ∧
      Numeral.Denotes ⟨some '-', Text.lit "12", Text.lit "3"⟩ (.ofRatio true 123 10) ∧
      (fractional .latitude 1 .point 0).read true true (Text.lit "x-12.34") (.start 1) =
        (.ok (.ofRatio true 123 10), .start 6) := by
  have h0 : 0 ≤ (Cursor.start 1).index := by decide
  have h1 : (Cursor.start 1).index ≤ (Text.lit "x-12.34").length := by decide
  have hvalue : (fractional .latitude 1 .point 0).read true true (Text.lit "x-12.34")
      (.start 1) = (.ok (.ofRatio true 123 10), .start 6) := by decide +kernel
  obtain ⟨n, x, hn, hunique, hlongest, hx, hread⟩ :=
    (read_longest (fractional .latitude 1 .point 0) true true (Text.lit "x-12.34") (.start 1)
      h0 h1).1 (hasDigits_scan_iff.1 (by decide))
  obtain rfl : Double.ofRatio true 123 10 = x := by
    rw [hvalue] at hread
    exact Except.ok.inj (congrArg Prod.fst hread)
  have hscan : (fractional .latitude 1 .point 0).scan true true (Text.lit "-12.34") =
      ⟨some '-', Text.lit "12", Text.lit "3"⟩ := by decide
  have hdigits : ((fractional .latitude 1 .point 0).scan true true
      (Text.lit "-12.34")).hasDigits = true := by decide
  -- there is one longest prefix, and it spells one numeral
  have hspelled := (isLongest_scan hdigits).unique hlongest
  obtain rfl := hunique _ (admits_scan hdigits) hspelled
  rw [hscan] at hn hlongest hx
  exact ⟨h0, h1, hn, hlongest, hx, hvalue⟩

end Specifier

end GeoPattern
