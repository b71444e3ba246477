/-
Fields with a second separator. Grouping fails exactly where a run of a field letter is followed by
a separator and the letter, and once more by a separator and the letter; in the pattern that is a
letter, a separator, the letter once or more, a separator and the letter, outside of quotes.
Main statements: `exists_group_iff`, `exists_tokenize_iff`.
-/
import GeoPattern.Proofs.Pattern.Quotes

namespace GeoPattern

namespace Token

/-! ## Fractions -/

theorem isPlain_iff {g : Glyph} {c : CodePoint} :
    g.isPlain c = true ↔ g.plain = true ∧ g.codePoint = c := by
  simp [Glyph.isPlain]

theorem plain_of_isReserved {g : Glyph} (hg : g.isReserved = true) : g.plain = true := by
  rw [Glyph.isReserved, Bool.and_eq_true] at hg
  exact hg.1

/-- A run of letters is as long as it can be. -/
theorem letterRun_spec (letter : CodePoint) (gs : List Glyph) :
    ∃ letters, gs = letters ++ (letterRun letter gs).2 ∧
      letters.length = (letterRun letter gs).1 ∧ (∀ g ∈ letters, g.isPlain letter = true) ∧
      ∀ g, (letterRun letter gs).2.head? = some g → g.isPlain letter = false := by
  induction gs with
  | nil => exact ⟨[], rfl, rfl, nofun, nofun⟩
  | cons g rest ih =>
    rw [letterRun]
    split
    · rename_i hg
      obtain ⟨letters, he, hl, hp, hb⟩ := ih
      refine ⟨g :: letters, congrArg (g :: ·) he, congrArg (· + 1) hl, ?_, hb⟩
      intro g' hg'
      rcases List.mem_cons.1 hg' with rfl | hg'
      · exact hg
      · exact hp g' hg'
    · rename_i hg
      refine ⟨[], rfl, rfl, nofun, fun g' hg' => ?_⟩
      rw [← Option.some.inj hg']
      simpa using hg

/-- A fraction is a separator and a run of letters that is not empty. -/
theorem fraction?_eq_some_iff {letter : CodePoint} {gs behind : List Glyph}
    {separator : Separator} {more : Nat} :
    fraction? letter gs = some (separator, more, behind) ↔
      ∃ mark first letters, gs = mark :: first :: (letters ++ behind) ∧ mark.plain = true ∧
        Separator.ofSymbol? mark.codePoint = some separator ∧ letters.length = more ∧
        (∀ g ∈ first :: letters, g.isPlain letter = true) ∧
        ∀ g, behind.head? = some g → g.isPlain letter = false := by
  constructor
  · intro h
    unfold fraction? at h
    split at h
    case h_2 => cases h
    rename_i mark first rest
    split at h
    case h_2 => cases h
    rename_i separator' hs
    split at h
    case isFalse => cases h
    rename_i hm
    obtain ⟨letters, he, hl, hp, hb⟩ := letterRun_spec letter rest
    simp only [Option.some.injEq, Prod.mk.injEq] at h
    obtain ⟨rfl, hrun⟩ := h
    rw [hrun] at he hl hb
    refine ⟨mark, first, letters, by rw [← he], hm.1, hs, hl, fun g hg => ?_, hb⟩
    rcases List.mem_cons.1 hg with rfl | hg
    · exact hm.2
    · exact hp g hg
  · rintro ⟨mark, first, letters, rfl, hm, hs, rfl, hp, hb⟩
    rw [fraction?, hs]
    simp only [hm, hp first List.mem_cons_self, and_self, if_true]
    rw [letterRun_append (fun g hg => hp g (List.mem_cons_of_mem _ hg)) hb]

/-- Two fractions of a letter stand in front. -/
def TwoFractions (letter : CodePoint) (gs : List Glyph) : Prop :=
  ∃ separator more behind, fraction? letter gs = some (separator, more, behind) ∧
    (fraction? letter behind).isSome = true

/-- Somewhere a field letter stands in front of two fractions of it. -/
def DividedTwice : List Glyph → Prop
  | [] => False
  | g :: rest =>
    (g.plain = true ∧ (Quantity.ofLetter? g.codePoint).isSome = true ∧
      TwoFractions g.codePoint rest) ∨ DividedTwice rest

/-- No letter is a separator. -/
theorem ofSymbol?_eq_none_of_letter {c : CodePoint} (h : (Quantity.ofLetter? c).isSome = true) :
    Separator.ofSymbol? c = none := by
  obtain ⟨q, hq⟩ := Option.isSome_iff_exists.1 h
  rw [← Quantity.letter_of_ofLetter? hq]
  cases q <;> rfl

theorem fraction?_letter {letter : CodePoint} (h : (Quantity.ofLetter? letter).isSome = true)
    {g : Glyph} (hg : g.isPlain letter = true) (rest : List Glyph) :
    fraction? letter (g :: rest) = none := by
  rw [Option.eq_none_iff_forall_ne_some]
  rintro ⟨separator, more, behind⟩ hf
  obtain ⟨mark, first, letters, he, -, hs, -⟩ := fraction?_eq_some_iff.1 hf
  rw [← (List.cons.inj he).1, (isPlain_iff.1 hg).2, ofSymbol?_eq_none_of_letter h] at hs
  cases hs

theorem dividedTwice_cons_of_not_letter {g : Glyph}
    (h : g.plain = true → Quantity.ofLetter? g.codePoint = none) (rest : List Glyph) :
    DividedTwice (g :: rest) ↔ DividedTwice rest := by
  rw [DividedTwice, or_iff_right]
  rintro ⟨hp, hq, -⟩
  rw [h hp] at hq
  cases hq

/-- Of a run of letters only the last one can stand in front of fractions. -/
theorem dividedTwice_letters {letter : CodePoint} (h : (Quantity.ofLetter? letter).isSome = true)
    {letters : List Glyph} (hne : letters ≠ []) (hl : ∀ g ∈ letters, g.isPlain letter = true)
    (rest : List Glyph) :
    DividedTwice (letters ++ rest) ↔ TwoFractions letter rest ∨ DividedTwice rest := by
  induction letters with
  | nil => exact absurd rfl hne
  | cons g letters ih =>
    obtain ⟨hp, rfl⟩ := isPlain_iff.1 (hl g List.mem_cons_self)
    rw [List.cons_append, DividedTwice]
    cases letters with
    | nil => simp [hp, h]
    | cons g' letters =>
      have hnone : ¬ TwoFractions g.codePoint (g' :: letters ++ rest) := by
        rintro ⟨separator, more, behind, hf, -⟩
        rw [List.cons_append, fraction?_letter h (hl g' (by simp))] at hf
        cases hf
      rw [ih (List.cons_ne_nil _ _) fun g'' hg => hl g'' (List.mem_cons_of_mem _ hg),
        or_iff_right fun h => hnone h.2.2]

/-! ## Grouping -/

/-- A reserved glyph begins a run of its character. -/
theorem exists_letters {g : Glyph} (hg : g.isReserved = true) (rest : List Glyph) :
    ∃ letters, rest = letters ++ (letterRun g.codePoint rest).2 ∧
      letters.length = (letterRun g.codePoint rest).1 ∧
      ∀ l ∈ g :: letters, l.isPlain g.codePoint = true := by
  obtain ⟨letters, he, hlen, hl, -⟩ := letterRun_spec g.codePoint rest
  have hp := isPlain_iff.2 ⟨plain_of_isReserved hg, rfl⟩
  exact ⟨letters, he, hlen, List.forall_mem_cons.2 ⟨hp, hl⟩⟩

/-- A glyph that is taken for a field begins a run of its letter. -/
theorem dividedTwice_run {g : Glyph} {rest : List Glyph} {quantity : Quantity}
    (hg : g.isReserved = true) (hq : Quantity.ofLetter? g.codePoint = some quantity) :
    DividedTwice (g :: rest) ↔ TwoFractions g.codePoint (letterRun g.codePoint rest).2 ∨
      DividedTwice (letterRun g.codePoint rest).2 := by
  obtain ⟨letters, he, -, hl⟩ := exists_letters hg rest
  conv_lhs => rw [he]
  exact dividedTwice_letters (by rw [hq]; rfl) (List.cons_ne_nil _ _) hl _

theorem dividedTwice_literalRun (gs : List Glyph) :
    DividedTwice gs ↔ DividedTwice (literalRun gs).2 := by
  induction gs with
  | nil => rfl
  | cons g rest ih =>
    rw [literalRun]
    split
    · rfl
    · rename_i hg
      rw [dividedTwice_cons_of_not_letter, ih]
      intro hp
      by_contra hq
      obtain ⟨q, hq⟩ := Option.ne_none_iff_exists'.1 hq
      apply hg
      rw [Glyph.isReserved, hp, ← Quantity.letter_of_ofLetter? hq, isReserved_letter]
      rfl

/-- What a step takes for a symbol has no second separator. -/
theorem Step.dividedTwice_iff {g : Glyph} {rest behind : List Glyph} {symbol : Symbol}
    (h : Step g rest symbol behind) : DividedTwice (g :: rest) ↔ DividedTwice behind := by
  cases h with
  | mark hg hq => exact dividedTwice_cons_of_not_letter (fun _ => hq) rest
  | whole hg hq hf =>
    rw [dividedTwice_run hg hq, or_iff_right]
    rintro ⟨separator, more, behind, h, -⟩
    rw [hf] at h
    cases h
  | @fractional quantity separator places _ hg hq hf hb =>
    have hletter : (Quantity.ofLetter? g.codePoint).isSome = true := by rw [hq]; rfl
    rw [dividedTwice_run hg hq, or_iff_right]
    · obtain ⟨mark, first, letters, he, hm, hs, -, hl, -⟩ := fraction?_eq_some_iff.1 hf
      rw [he, dividedTwice_cons_of_not_letter, ← List.cons_append,
        dividedTwice_letters hletter (List.cons_ne_nil _ _) hl, or_iff_right]
      · rintro ⟨separator, more, behind', h, -⟩
        rw [hb] at h
        cases h
      · intro _
        by_contra hne
        obtain ⟨q, hq'⟩ := Option.ne_none_iff_exists'.1 hne
        rw [ofSymbol?_eq_none_of_letter (by rw [hq']; rfl)] at hs
        cases hs
    · rintro ⟨separator', more, behind', h, h'⟩
      rw [hf] at h
      cases h
      rw [hb] at h'
      cases h'
  | literal hg =>
    have := dividedTwice_literalRun (g :: rest)
    rwa [literalRun, if_neg (by simp [hg])] at this

/-- Where no step can be taken, the field in front has a second separator. -/
theorem step_or_dividedTwice (g : Glyph) (rest : List Glyph) :
    (∃ symbol behind, Step g rest symbol behind) ∨ DividedTwice (g :: rest) := by
  rcases hg : g.isReserved with - | -
  · exact .inl ⟨_, _, .literal hg⟩
  rcases hq : Quantity.ofLetter? g.codePoint with - | quantity
  · exact .inl ⟨_, _, .mark hg hq⟩
  rcases hf : fraction? g.codePoint (letterRun g.codePoint rest).2 with - | ⟨separator, places, behind⟩
  · exact .inl ⟨_, _, .whole hg hq hf⟩
  rcases hb : fraction? g.codePoint behind with - | again
  · exact .inl ⟨_, _, .fractional hg hq hf hb⟩
  · exact .inr ((dividedTwice_run hg hq).2 (.inl ⟨separator, places, behind, hf, by rw [hb]; rfl⟩))

/-- Glyphs are grouped exactly if no field among them has a second separator. -/
theorem exists_group_iff (gs : List Glyph) :
    (∃ tokens, group gs = .ok tokens) ↔ ¬ DividedTwice gs := by
  induction hn : gs.length using Nat.strongRecOn generalizing gs with
  | _ n ih =>
    cases gs with
    | nil => exact iff_of_true ⟨[], by rw [group]⟩ id
    | cons g rest =>
      have hlen {symbol : Symbol} {behind : List Glyph} (hs : Step g rest symbol behind) :
          behind.length < n := by
        have := hs.length_le
        rw [List.length_cons] at hn
        omega
      constructor
      · rintro ⟨tokens, h⟩
        obtain ⟨symbol, behind, more, hs, hb, -⟩ := group_cons_eq_ok_iff.1 h
        rw [hs.dividedTwice_iff]
        exact (ih _ (hlen hs) behind rfl).1 ⟨more, hb⟩
      · intro h
        obtain ⟨symbol, behind, hs⟩ := (step_or_dividedTwice g rest).resolve_right h
        rw [hs.dividedTwice_iff] at h
        obtain ⟨more, hb⟩ := (ih _ (hlen hs) behind rfl).2 h
        exact ⟨_, group_cons_eq_ok_iff.2 ⟨symbol, behind, more, hs, hb, rfl⟩⟩

/-- The only error of grouping is a second separator. -/
theorem eq_severalSeparators_of_group {gs : List Glyph} {e : PatternError}
    (h : group gs = .error e) : ∃ position, e = .severalSeparators position := by
  induction hn : gs.length using Nat.strongRecOn generalizing gs with
  | _ n ih =>
    cases gs with
    | nil => rw [group] at h; cases h
    | cons g rest =>
      rcases step_or_error g rest with ⟨symbol, behind, hs⟩ | he
      · have := hs.length_le
        rw [List.length_cons] at hn
        rw [hs.group_eq] at h
        rcases hb : group behind with e' | more
        · rw [hb] at h
          cases h
          exact ih behind.length (by omega) hb rfl
        · rw [hb] at h
          cases h
      · rw [he] at h
        cases h
        exact ⟨_, rfl⟩

end Token

/-! ## In the pattern -/

/-- A field letter, a separator, the letter once or more, a separator, and the letter again. -/
def IsDividedTwice (w : Text) : Prop :=
  ∃ letter first second more, w = letter :: first :: letter :: (List.replicate more letter ++
      [second, letter]) ∧
    (Quantity.ofLetter? letter).isSome = true ∧ Specifier.isSeparator first = true ∧
    Specifier.isSeparator second = true

theorem IsDividedTwice.ne_quote {w : Text} (h : IsDividedTwice w) : ∀ c ∈ w, c ≠ .char '\'' := by
  obtain ⟨letter, first, second, more, rfl, hq, h1, h2⟩ := h
  obtain ⟨q, hq⟩ := Option.isSome_iff_exists.1 hq
  have hletter : letter ≠ .char '\'' := Quantity.letter_of_ofLetter? hq ▸ q.letter_ne_quote
  have hsep {c : CodePoint} (hc : Specifier.isSeparator c = true) : c ≠ .char '\'' := by
    rintro rfl
    cases hc
  intro c hc
  simp only [List.mem_cons, List.mem_append, List.mem_replicate, List.not_mem_nil, or_false] at hc
  rcases hc with rfl | rfl | rfl | ⟨-, rfl⟩ | rfl | rfl
  all_goals first | exact hletter | exact hsep ‹_›

theorem IsDividedTwice.ne_nil {w : Text} (h : IsDividedTwice w) : w ≠ [] := by
  obtain ⟨_, _, _, _, rfl, -⟩ := h
  exact List.cons_ne_nil _ _

/-- Somewhere outside of quotes a field has a second separator. -/
def HasDividedTwice (pattern : Text) : Prop :=
  ∃ before w after, pattern = before ++ w ++ after ∧ Even (quoteCount before) ∧ IsDividedTwice w

namespace Token

theorem dividedTwice_append (before : List Glyph) {gs : List Glyph} (h : DividedTwice gs) :
    DividedTwice (before ++ gs) := by
  induction before with
  | nil => exact h
  | cons g before ih => exact .inr ih

/-- The glyphs of a word that is divided twice. -/
theorem isDividedTwice_map_iff {ws : List Glyph} : IsDividedTwice (ws.map Glyph.codePoint) ↔
    ∃ g mark first letters mark' last, ws = g :: mark :: first :: (letters ++ [mark', last]) ∧
      (∀ l ∈ first :: letters, l.codePoint = g.codePoint) ∧ last.codePoint = g.codePoint ∧
      (Quantity.ofLetter? g.codePoint).isSome = true ∧
      Specifier.isSeparator mark.codePoint = true ∧
      Specifier.isSeparator mark'.codePoint = true := by
  constructor
  · rintro ⟨letter, separator, separator', more, hw, hq, h1, h2⟩
    obtain ⟨g, divided, rfl, rfl, hdivided⟩ := List.map_eq_cons_iff.1 hw
    obtain ⟨mark, run, rfl, rfl, hrun⟩ := List.map_eq_cons_iff.1 hdivided
    obtain ⟨first, more, rfl, hfirst, hmore⟩ := List.map_eq_cons_iff.1 hrun
    obtain ⟨letters, again, rfl, hletters, hagain⟩ := List.map_eq_append_iff.1 hmore
    obtain ⟨mark', final, rfl, rfl, hfinal⟩ := List.map_eq_cons_iff.1 hagain
    obtain ⟨last, rest, rfl, hlast, hrest⟩ := List.map_eq_cons_iff.1 hfinal
    obtain rfl := List.map_eq_nil_iff.1 hrest
    refine ⟨g, mark, first, letters, mark', last, rfl, fun l hl => ?_, hlast, hq, h1, h2⟩
    rcases List.mem_cons.1 hl with rfl | hl
    · exact hfirst
    · exact (List.eq_replicate_iff.1 hletters).2 _ (List.mem_map_of_mem hl)
  · rintro ⟨g, mark, first, letters, mark', last, rfl, hall, hlast, hq, h1, h2⟩
    have hletters : letters.map Glyph.codePoint =
        List.replicate letters.length g.codePoint := by
      refine List.eq_replicate_iff.2 ⟨List.length_map _, fun c hc => ?_⟩
      obtain ⟨l, hl, rfl⟩ := List.mem_map.1 hc
      exact hall l (List.mem_cons_of_mem _ hl)
    refine ⟨g.codePoint, mark.codePoint, mark'.codePoint, letters.length, ?_, hq, h1, h2⟩
    simp [hletters, hlast, hall first List.mem_cons_self]

/-- Two fractions behind a field letter make a word of plain glyphs that is divided twice. -/
theorem exists_word_of_dividedTwice {gs : List Glyph} (h : DividedTwice gs) :
    ∃ before ws after, gs = before ++ ws ++ after ∧ (∀ g ∈ ws, g.plain = true) ∧
      IsDividedTwice (ws.map Glyph.codePoint) := by
  induction gs with
  | nil => cases h
  | cons g rest ih =>
    rcases h with ⟨hp, hq, separator, more, behind, hf, hb⟩ | h
    · obtain ⟨⟨separator', more', behind'⟩, hb⟩ := Option.isSome_iff_exists.1 hb
      obtain ⟨mark, first, letters, rfl, hm, hs, -, hall, -⟩ := fraction?_eq_some_iff.1 hf
      obtain ⟨mark', last, letters', rfl, hm', hs', -, hall', -⟩ := fraction?_eq_some_iff.1 hb
      have hfirst := fun l hl => isPlain_iff.1 (hall l hl)
      have hlast := isPlain_iff.1 (hall' last List.mem_cons_self)
      refine ⟨[], g :: mark :: first :: (letters ++ [mark', last]), letters' ++ behind', by simp,
        fun l hl => ?_, isDividedTwice_map_iff.2 ⟨g, mark, first, letters, mark', last, rfl,
          fun l hl => (hfirst l hl).2, hlast.2, hq, by rw [Specifier.isSeparator, hs]; rfl,
          by rw [Specifier.isSeparator, hs']; rfl⟩⟩
      simp only [List.mem_cons, List.mem_append, List.not_mem_nil, or_false] at hl
      rcases hl with rfl | rfl | rfl | hl | rfl | rfl
      · exact hp
      · exact hm
      · exact (hfirst _ List.mem_cons_self).1
      · exact (hfirst _ (List.mem_cons_of_mem _ hl)).1
      · exact hm'
      · exact hlast.1
    · obtain ⟨before, ws, after, rfl, hp, ho⟩ := ih h
      exact ⟨g :: before, ws, after, rfl, hp, ho⟩

/-- A word of plain glyphs that is divided twice makes two fractions, whatever stands behind it. -/
theorem dividedTwice_of_word {ws : List Glyph} (hp : ∀ g ∈ ws, g.plain = true)
    (h : IsDividedTwice (ws.map Glyph.codePoint)) (after : List Glyph) :
    DividedTwice (ws ++ after) := by
  obtain ⟨g, mark, first, letters, mark', last, rfl, hall, hlast, hq, h1, h2⟩ :=
    isDividedTwice_map_iff.1 h
  obtain ⟨separator, hs⟩ := Option.isSome_iff_exists.1 h1
  obtain ⟨separator', hs'⟩ := Option.isSome_iff_exists.1 h2
  -- the second separator ends the run of letters
  have hmark' : mark'.isPlain g.codePoint = false := by
    rw [← Bool.not_eq_true, isPlain_iff]
    rintro ⟨-, hc⟩
    rw [hc, ofSymbol?_eq_none_of_letter hq] at hs'
    cases hs'
  refine .inl ⟨hp g (by simp), hq, separator, letters.length, mark' :: last :: after, ?_, ?_⟩
  · refine fraction?_eq_some_iff.2 ⟨mark, first, letters, by simp, hp mark (by simp), hs, rfl,
      fun l hl => isPlain_iff.2 ⟨hp l ?_, hall l hl⟩, fun l hl => ?_⟩
    · rcases List.mem_cons.1 hl with rfl | hl
      · simp
      · simp [hl]
    · rw [← Option.some.inj hl]
      exact hmark'
  · rw [fraction?, hs']
    simp [hp mark' (by simp), isPlain_iff.2 ⟨hp last (by simp), hlast⟩]

/-- A field that is divided twice is a word of plain glyphs. -/
theorem dividedTwice_iff (gs : List Glyph) : DividedTwice gs ↔
    ∃ before ws after, gs = before ++ ws ++ after ∧ (∀ g ∈ ws, g.plain = true) ∧
      IsDividedTwice (ws.map Glyph.codePoint) := by
  constructor
  · exact exists_word_of_dividedTwice
  · rintro ⟨before, ws, after, rfl, hp, h⟩
    rw [List.append_assoc]
    exact dividedTwice_append before (dividedTwice_of_word hp h after)

end Token

/-- The glyphs of a pattern have a field that is divided twice where its text has one. -/
theorem dividedTwice_scan_iff (pattern : Text) :
    Token.DividedTwice (Glyph.scan 0 none pattern).1 ↔ HasDividedTwice pattern := by
  rw [Token.dividedTwice_iff]
  constructor
  · rintro ⟨before, ws, after, he, hp, ho⟩
    obtain ⟨front, back, rfl, heven⟩ :=
      (Glyph.exists_plain_iff ho.ne_nil ho.ne_quote pattern 0).1 ⟨before, ws, after, he, hp, rfl⟩
    exact ⟨front, _, back, rfl, heven, ho⟩
  · rintro ⟨front, w, back, rfl, heven, ho⟩
    obtain ⟨before, ws, after, he, hp, rfl⟩ :=
      (Glyph.exists_plain_iff ho.ne_nil ho.ne_quote (front ++ w ++ back) 0).2
        ⟨front, back, rfl, heven⟩
    exact ⟨before, ws, after, he, hp, ho⟩

theorem left_scan_iff (pattern : Text) :
    (Glyph.scan 0 none pattern).2 = none ↔ Even (quoteCount pattern) := by
  simp [Glyph.left_eq_none_iff]

/-- A pattern has tokens exactly if its quotes pair up and no field has a second separator. -/
theorem exists_tokenize_iff (pattern : Text) : (∃ tokens, tokenize pattern = .ok tokens) ↔
    Even (quoteCount pattern) ∧ ¬ HasDividedTwice pattern := by
  rw [← left_scan_iff, ← dividedTwice_scan_iff, ← Token.exists_group_iff]
  constructor
  · rintro ⟨tokens, h⟩
    obtain ⟨gs, hs, hg⟩ := tokenize_eq_ok_iff.1 h
    rw [hs]
    exact ⟨rfl, tokens, hg⟩
  · rintro ⟨hs, tokens, hg⟩
    exact ⟨tokens, tokenize_eq_ok_iff.2 ⟨_, Prod.ext rfl hs, hg⟩⟩

end GeoPattern
