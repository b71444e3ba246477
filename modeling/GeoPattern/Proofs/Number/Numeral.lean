/-
Written numbers and their reading. What a specifier writes is a numeral: at most a minus sign, the
padded digits of the whole part, and the separator with the fraction digits. The text tells which
numeral it is, and a scan of it, with something else behind it, gives that numeral again.
Main statements: `prints_of_render`, `scan_spelledWith`, `length_lt_scan`.
-/
import GeoPattern.Proofs.Number.Digits
import GeoPattern.Proofs.Number.Double
import GeoPattern.Specifier.Render
import GeoPattern.Specifier.Scan

namespace GeoPattern

namespace Numeral

/-! ## The numeral of a text -/

/-- The numeral that a text spells: a minus sign or none, the digits at the front, and the digits
behind the separator. -/
def ofText (w : Text) : Numeral where
  sign := w.head?.filter (· == .char '-')
  integer := (w.dropWhile (!isDigit ·)).takeWhile isDigit
  fraction := ((w.dropWhile (!isDigit ·)).dropWhile isDigit).drop 1

/-- The size of the number that a numeral denotes. -/
def toRat (n : Numeral) : ℚ := n.decimal.toRat

/-- A numeral as it is written: it has a minus sign or none, and digits in front of the
separator. -/
structure Plain (n : Numeral) : Prop where
  sign : n.sign = none ∨ n.sign = some (.char '-')
  integer_ne_nil : n.integer ≠ []
  integer : AllDigits n.integer
  fraction : AllDigits n.fraction

variable {n : Numeral}

theorem isDigit_minus : isDigit '-' = false := by decide

theorem isDigit_separator (s : Separator) : isDigit s.symbol = false := by
  cases s <;> rfl

/-- What stands behind the whole part of a numeral. -/
def fractionText (n : Numeral) (separator : Separator) : Text :=
  if n.fraction = [] then [] else separator.symbol :: n.fraction

theorem spelledWith_eq (n : Numeral) (separator : Separator) :
    n.spelledWith separator = n.sign.toList ++ (n.integer ++ n.fractionText separator) := by
  rw [spelledWith, List.append_assoc]
  rfl

theorem length_spelledWith (n : Numeral) (separator : Separator) :
    (n.spelledWith separator).length = n.length := by
  rw [spelledWith, length, List.length_append, List.length_append]
  split <;> rfl

theorem stopsDigits_fractionText (n : Numeral) (separator : Separator) :
    StopsDigits (n.fractionText separator) := by
  unfold fractionText
  split
  · exact stopsDigits_nil
  · exact stopsDigits_cons (isDigit_separator _) _

theorem drop_fractionText (n : Numeral) (separator : Separator) :
    (n.fractionText separator).drop 1 = n.fraction := by
  unfold fractionText
  split
  · rename_i h; rw [h]; rfl
  · rfl

/-- The whole part starts with a digit. -/
theorem Plain.exists_integer (h : n.Plain) :
    ∃ c more, n.integer = c :: more ∧ isDigit c = true := by
  obtain ⟨c, more, he⟩ := List.exists_cons_of_ne_nil h.integer_ne_nil
  exact ⟨c, more, he, h.integer c (by rw [he]; exact List.mem_cons_self)⟩

/-- A written numeral is found again in its spelling. -/
theorem ofText_spelledWith (h : n.Plain) (separator : Separator) :
    ofText (n.spelledWith separator) = n := by
  obtain ⟨c, more, he, hc⟩ := h.exists_integer
  have hcm : c ≠ '-' := by
    rintro rfl
    rw [isDigit_minus] at hc
    cases hc
  -- a minus sign is all that may stand in front of the digits
  have hdrop : (n.spelledWith separator).dropWhile (!isDigit ·)
      = n.integer ++ n.fractionText separator := by
    rw [spelledWith_eq]
    have htail : (n.integer ++ n.fractionText separator).dropWhile (!isDigit ·)
        = n.integer ++ n.fractionText separator := by
      rw [he, List.cons_append, List.dropWhile_cons_of_neg (by simp [hc])]
    rcases h.sign with hs | hs <;> rw [hs]
    · exact htail
    · rw [Option.toList_some, List.cons_append, List.nil_append,
        List.dropWhile_cons_of_pos (by simp [isDigit_minus]), htail]
  have hhead : (n.spelledWith separator).head?.filter (· == .char '-') = n.sign := by
    rw [spelledWith_eq]
    rcases h.sign with hs | hs <;> rw [hs]
    · rw [he]
      simp [Option.filter, hcm]
    · rfl
  have hstop := stopsDigits_fractionText n separator
  unfold ofText
  rw [hhead, hdrop, takeWhile_isDigit h.integer hstop, dropWhile_isDigit h.integer hstop,
    drop_fractionText]

/-! ## Numerals in a text -/

/-- A numeral as it may stand in a text: digits with a separator among them or not, and a sign if it
is `signed`. -/
structure Scanned (n : Numeral) (signed : Bool) : Prop where
  sign : ∀ c, n.sign = some c → signed = true ∧ (c = .char '+' ∨ c = .char '-')
  integer : AllDigits n.integer
  fraction : AllDigits n.fraction

theorem Plain.scanned {signed : Bool} (h : n.Plain) (hs : signed = false → n.sign = none) :
    n.Scanned signed where
  sign c hc := by
    rcases h.sign with hn | hn <;> rw [hn] at hc
    · cases hc
    · cases hc
      cases signed with
      | false => rw [hs rfl] at hn; cases hn
      | true => exact ⟨rfl, .inr rfl⟩
  integer := h.integer
  fraction := h.fraction

theorem Plain.hasDigits (h : n.Plain) : n.hasDigits = true := by
  simp [Numeral.hasDigits, h.integer_ne_nil]

theorem ne_sign_of_isDigit {c : CodePoint} (h : isDigit c = true) :
    c ≠ .char '+' ∧ c ≠ .char '-' := by
  constructor <;> rintro rfl <;> exact absurd h (by decide)

theorem ne_sign_symbol (separator : Separator) :
    separator.symbol ≠ .char '+' ∧ separator.symbol ≠ .char '-' := by
  cases separator <;> decide

/-- Behind its sign a numeral starts with something else. -/
theorem Scanned.exists_cons {signed : Bool} (h : n.Scanned signed) (hd : n.hasDigits = true)
    (separator : Separator) : ∃ c more, n.integer ++ n.fractionText separator = c :: more ∧
      c ≠ .char '+' ∧ c ≠ .char '-' := by
  rcases hi : n.integer with - | ⟨c, more⟩
  · have hf : n.fraction ≠ [] := by simpa [hasDigits, hi] using hd
    rw [fractionText, if_neg hf]
    exact ⟨_, _, rfl, ne_sign_symbol separator⟩
  · exact ⟨c, _, rfl, ne_sign_of_isDigit (h.integer c (by rw [hi]; exact List.mem_cons_self))⟩

end Numeral

/-! ## What a specifier writes -/

namespace Specifier

variable {s : Specifier} {w rest : Text} {negative : Bool} {m : Magnitude} {x : ℚ}

/-- The numeral of a rounded number. -/
def numeral (s : Specifier) (negative : Bool) (y : Decimal) : Numeral :=
  let places := (-y.exponent).toNat
  let one := 10 ^ places
  ⟨if negative ∧ y.coefficient ≠ 0 then some (.char '-') else none,
    paddedDigits s.integerDigits (y.coefficient / one), fixedDigits places (y.coefficient % one)⟩

theorem renderRounded_eq (s : Specifier) (negative : Bool) (y : Decimal) :
    s.renderRounded negative y = (s.numeral negative y).spelledWith s.separator := by
  have hnil : fixedDigits (-y.exponent).toNat (y.coefficient % 10 ^ (-y.exponent).toNat) = [] ↔
      (-y.exponent).toNat = 0 := by
    rw [← List.length_eq_zero_iff, length_fixedDigits]
  simp only [renderRounded, numeral, Numeral.spelledWith, hnil]
  split <;> rfl

theorem plain_numeral (s : Specifier) (negative : Bool) (y : Decimal) :
    (s.numeral negative y).Plain where
  sign := by
    unfold numeral
    dsimp only
    split
    · exact .inr rfl
    · exact .inl rfl
  integer_ne_nil := paddedDigits_ne_nil _ _
  integer := allDigits_paddedDigits _ _
  fraction := allDigits_fixedDigits _ _

/-- A numeral denotes the number that it was made of. -/
theorem toRat_numeral {y : Decimal} (hy : y.exponent ≤ 0) :
    (s.numeral negative y).toRat = y.toRat := by
  have hmod : y.coefficient % 10 ^ (-y.exponent).toNat % 10 ^ (-y.exponent).toNat
      = y.coefficient % 10 ^ (-y.exponent).toNat := Nat.mod_mod _ _
  have hexp : -(((-y.exponent).toNat : ℕ) : ℤ) = y.exponent := by omega
  simp only [Numeral.toRat, Numeral.decimal, numeral, Decimal.toRat, digitsValue_append,
    digitsValue_paddedDigits, digitsValue_fixedDigits, length_fixedDigits, hmod, hexp]
  congr 2
  exact Nat.div_add_mod' _ _

/-- A text shows `x` in the notation of a specifier: it spells a numeral with the right digit counts
that denotes the rounded number, and the minus sign of what is below zero after rounding. -/
structure Prints (s : Specifier) (negative : Bool) (x : ℚ) (w : Text) : Prop where
  plain : (Numeral.ofText w).Plain
  spelled : (Numeral.ofText w).spelledWith s.separator = w
  toRat : (Numeral.ofText w).toRat = toPlaces s.fractionDigits x
  sign : (Numeral.ofText w).sign =
    if negative ∧ toPlaces s.fractionDigits x ≠ 0 then some (.char '-') else none
  integer : (Numeral.ofText w).integer =
    paddedDigits s.integerDigits ⌊toPlaces s.fractionDigits x⌋.toNat
  fraction : (Numeral.ofText w).fraction.length = min s.fractionDigits Decimal.finestPlaces

theorem render_eq_ok_iff {value : Double} : s.render value = .ok w ↔
    ∃ negative m y, value = .finite negative m ∧
      (Decimal.ofMagnitude m).quantize s.fractionDigits = .ok y ∧
      w = s.renderRounded negative y := by
  unfold render
  constructor
  · intro h
    split at h
    · rename_i negative m
      split at h
      · rename_i y hy
        cases h
        exact ⟨negative, m, y, rfl, hy, rfl⟩
      · cases h
    · cases h
  · rintro ⟨negative, m, y, rfl, hy, rfl⟩
    simp [hy]

theorem floor_toRat {y : Decimal} (hy : y.exponent ≤ 0) :
    ⌊y.toRat⌋.toNat = y.coefficient / 10 ^ (-y.exponent).toNat := by
  have hexp : y.exponent.toNat = 0 := by omega
  rw [y.toRat_eq_div, hexp, pow_zero, mul_one, Rat.floor_natCast_div_natCast, ← Int.natCast_ediv,
    Int.toNat_natCast]

/-- A finite number is written as itself, rounded to the fraction digits. -/
theorem prints_of_render (h : s.render (.finite negative m) = .ok w) :
    s.Prints negative m.toRat w := by
  obtain ⟨negative', m', y, hd, hy, rfl⟩ := render_eq_ok_iff.1 h
  obtain ⟨rfl, rfl⟩ : negative = negative' ∧ m = m' := by cases hd; exact ⟨rfl, rfl⟩
  have hexp := Decimal.exponent_of_quantize hy
  have hle : y.exponent ≤ 0 := by omega
  have hrat : y.toRat = toPlaces s.fractionDigits m.toRat := by
    rw [Decimal.toRat_of_quantize (Decimal.coarse_ofMagnitude m) hy, Decimal.toRat_ofMagnitude]
  have hzero : toPlaces s.fractionDigits m.toRat ≠ 0 ↔ y.coefficient ≠ 0 := by
    rw [← hrat, Ne, y.toRat_eq_zero_iff]
  have hof := Numeral.ofText_spelledWith (s.plain_numeral negative y) s.separator
  rw [renderRounded_eq]
  constructor
  all_goals rw [hof]
  · exact s.plain_numeral negative y
  · rw [toRat_numeral hle, hrat]
  · simp only [hzero]
    rfl
  · rw [← hrat, floor_toRat hle]
    rfl
  · rw [numeral, length_fixedDigits, hexp]
    omega

/-- A number below the power of ten of the integer digits fills them exactly. -/
theorem Prints.length_integer (h : s.Prints negative x w)
    (hx : toPlaces s.fractionDigits x < 10 ^ s.integerDigits) :
    (Numeral.ofText w).integer.length = s.integerDigits := by
  rw [h.integer]
  apply length_paddedDigits_of_lt s.integerDigits_pos
  rw [Int.toNat_lt_of_ne_zero (pow_ne_zero _ (by norm_num)), Int.floor_lt]
  exact_mod_cast hx

theorem Prints.fraction_eq_nil_iff (h : s.Prints negative x w) :
    (Numeral.ofText w).fraction = [] ↔ s.fractionDigits = 0 := by
  have : 0 < Decimal.finestPlaces := by decide
  rw [← List.length_eq_zero_iff, h.fraction]
  omega

theorem Prints.length_fraction_le (h : s.Prints negative x w) :
    (Numeral.ofText w).fraction.length ≤ s.fractionDigits := by
  rw [h.fraction]
  omega

/-! ## Scanning it -/

/-- The sign of a numeral is scanned first. -/
theorem scanSign_spelledWith {n : Numeral} {signed : Bool} (hn : n.Scanned signed)
    (hd : n.hasDigits = true) (rest : Text) :
    scanSign signed (n.spelledWith s.separator ++ rest) =
      (n.sign, n.integer ++ (n.fractionText s.separator ++ rest)) := by
  rw [Numeral.spelledWith_eq, List.append_assoc, ← List.append_assoc n.integer]
  rcases hsign : n.sign with - | c
  · obtain ⟨c, more, hbody, hplus, hminus⟩ := hn.exists_cons hd s.separator
    rw [hbody]
    unfold scanSign
    split
    · rename_i h
      cases h
      exact absurd rfl hplus
    · rename_i h
      cases h
      exact absurd rfl hminus
    · rfl
  · obtain ⟨rfl, rfl | rfl⟩ := hn.sign c hsign <;> rfl

theorem scanFraction_of_whole (hf : s.fractionDigits = 0) (limit : Option ℕ) (rest : Text) :
    s.scanFraction limit rest = [] := by
  unfold scanFraction
  split
  · rfl
  · rw [if_neg (by omega)]

theorem scanFraction_fractionText {n : Numeral} (hf : n.fraction = [] ↔ s.fractionDigits = 0)
    (limit : Option ℕ) (rest : Text) :
    s.scanFraction limit (n.fractionText s.separator ++ rest) =
      if s.fractionDigits = 0 then [] else digitRun limit (n.fraction ++ rest) := by
  unfold Numeral.fractionText
  by_cases h : s.fractionDigits = 0
  · rw [if_pos (hf.2 h), if_pos h, List.nil_append]
    exact scanFraction_of_whole h limit rest
  · rw [if_neg (mt hf.1 h), if_neg h, List.cons_append, scanFraction,
      if_pos ⟨Nat.pos_of_ne_zero h, rfl⟩]

variable {n : Numeral} {signed bounded : Bool}

/-- Where a scan of a numeral ends: at something that is no digit, or in a bounded field behind all
of its fraction digits. -/
def EndsBefore (s : Specifier) (bounded : Bool) (n : Numeral) (rest : Text) : Prop :=
  bounded = true ∧ n.fraction.length = s.fractionDigits ∨ StopsDigits rest

theorem digitRun_integer (hp : n.Plain) (hb : bounded = true → n.integer.length = s.integerDigits)
    (he : s.EndsBefore bounded n rest) :
    digitRun (if bounded then some s.integerDigits else none)
      (n.integer ++ (n.fractionText s.separator ++ rest)) = n.integer := by
  cases bounded with
  | true =>
    rw [if_pos rfl, ← hb rfl]
    exact digitRun_of_length_eq hp.integer _
  | false =>
    rw [if_neg (by simp)]
    apply digitRun_none hp.integer
    have hr := he.resolve_left (by simp)
    unfold Numeral.fractionText
    split
    · exact hr
    · exact stopsDigits_cons (Numeral.isDigit_separator _) _

section Scan

variable (hp : n.Plain) (hs : signed = false → n.sign = none)
  (hf : n.fraction = [] ↔ s.fractionDigits = 0) (hle : n.fraction.length ≤ s.fractionDigits)
  (hb : bounded = true → n.integer.length = s.integerDigits)

include hp hs hf hle hb

/-- A numeral in front of a text where its scan ends is read back. -/
theorem scan_spelledWith (he : s.EndsBefore bounded n rest) :
    s.scan signed bounded (n.spelledWith s.separator ++ rest) = n := by
  have hint := digitRun_integer hp hb he
  have hfrac : s.scanFraction (if bounded then some s.fractionDigits else none)
      (n.fractionText s.separator ++ rest) = n.fraction := by
    rw [scanFraction_fractionText hf]
    split
    · rename_i h; rw [hf.2 h]
    · cases bounded with
      | true =>
        rw [if_pos rfl]
        rcases he with ⟨-, hl⟩ | hr
        · rw [← hl]
          exact digitRun_of_length_eq hp.fraction rest
        -- fewer digits than are asked for, but none behind them
        · exact digitRun_of_length_le hp.fraction hle hr
      | false =>
        rw [if_neg (by simp)]
        exact digitRun_none hp.fraction (he.resolve_left (by simp))
  unfold scan
  rw [scanSign_spelledWith (hp.scanned hs) hp.hasDigits]
  dsimp only
  rw [hint, List.drop_left, hfrac]

theorem scan?_spelledWith (he : s.EndsBefore bounded n rest) :
    s.scan? signed bounded (n.spelledWith s.separator ++ rest) = some n := by
  unfold scan?
  rw [scan_spelledWith hp hs hf hle hb he]
  simp [hp.hasDigits]

/-- A bounded scan that does not end where the numeral ends takes digits from behind it. -/
theorem length_lt_scan (hbounded : bounded = true) (he : ¬ s.EndsBefore bounded n rest) :
    n.length < (s.scan signed bounded (n.spelledWith s.separator ++ rest)).length := by
  subst hbounded
  unfold EndsBefore at he
  push Not at he
  -- the fraction is short, and the digit behind it fills it up
  have hlt : n.fraction.length < s.fractionDigits := lt_of_le_of_ne hle (he.1 rfl)
  have hpos : s.fractionDigits ≠ 0 := by omega
  have hne : n.fraction ≠ [] := mt hf.1 hpos
  have hint : digitRun (some s.integerDigits) (n.integer ++ (n.fractionText s.separator ++ rest))
      = n.integer := by
    rw [← hb rfl]
    exact digitRun_of_length_eq hp.integer _
  have hlong := length_lt_digitRun hp.fraction hlt he.2
  have hmore : digitRun (some s.fractionDigits) (n.fraction ++ rest) ≠ [] :=
    List.ne_nil_of_length_pos (by omega)
  unfold scan
  rw [scanSign_spelledWith (hp.scanned hs) hp.hasDigits]
  dsimp only
  rw [if_pos rfl, if_pos rfl, hint, List.drop_left, scanFraction_fractionText hf, if_neg hpos]
  unfold Numeral.length
  rw [if_neg hne, if_neg hmore]
  dsimp only
  omega

end Scan

/-- There is no number at the end of a text. -/
theorem scan?_nil (s : Specifier) (signed bounded : Bool) : s.scan? signed bounded [] = none := by
  have hsign : scanSign signed [] = (none, []) := by cases signed <;> rfl
  have hrun (limit : Option ℕ) : digitRun limit [] = [] := by cases limit <;> simp [digitRun]
  unfold scan? scan
  rw [hsign]
  simp [hrun, scanFraction, Numeral.hasDigits]

end Specifier

end GeoPattern
