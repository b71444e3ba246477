/-
What tokens keep of a pattern. Put together, the texts of the tokens are the pattern with its quotes
resolved. Every character is in the token that its meaning asks for: in a literal exactly if it is
not reserved or stands in quotes. What is no literal is found as it is at its position, and a field
is the longest run of its letter there, with at most one separator inside.
Main statements: `flatMap_text_of_group`, `isLongest_of_mem`, `tokenize_cover`.
-/
import GeoPattern.Proofs.Number.LongestMatch
import GeoPattern.Proofs.Pattern.Divided

namespace GeoPattern

/-! ## Quotes resolved -/

/-- A text with its quotes resolved from the left: two in a row are one quote, and any other quote
is left out. -/
def resolveQuotes : Text → Text
  | [] => []
  | '\'' :: '\'' :: rest => '\'' :: resolveQuotes rest
  | '\'' :: rest => resolveQuotes rest
  | c :: rest => c :: resolveQuotes rest

theorem resolveQuotes_cons {c : CodePoint} (hc : c ≠ .char '\'') (rest : Text) :
    resolveQuotes (c :: rest) = c :: resolveQuotes rest := by
  rw [resolveQuotes]
  · rintro more rfl
    exact fun h => absurd rfl hc
  · rintro rfl
    exact absurd rfl hc

theorem resolveQuotes_lone {rest : Text} (h : rest.head? ≠ some (.char '\'')) :
    resolveQuotes (.char '\'' :: rest) = resolveQuotes rest :=
  resolveQuotes.eq_3 rest fun more hm => h (by rw [hm]; rfl)

namespace Glyph

/-- The glyphs of a text have the characters that are left when its quotes are resolved. -/
theorem map_codePoint_scan (t : Text) (position : Nat) (opened : Option Nat) :
    (scan position opened t).1.map codePoint = resolveQuotes t := by
  induction t using quote_induction generalizing position opened with
  | nil => rfl
  | pair rest ih =>
    rw [scan_quote_quote, List.map_cons, ih]
    rfl
  | lone rest h ih =>
    obtain ⟨opened', hs, -⟩ := scan_lone h position opened
    rw [hs, ih, resolveQuotes_lone h]
  | other c rest hc ih => rw [scan_cons hc, List.map_cons, ih, resolveQuotes_cons hc]

/-- A character that is no quote is a glyph where it stands; it is plain behind an even number of
quotes. -/
theorem exists_scan_eq_append (front : Text) {c : CodePoint} (hc : c ≠ .char '\'') (back : Text) :
    ∃ after, (scan 0 none (front ++ c :: back)).1 =
      (scan 0 none front).1 ++ ⟨c, front.length, decide (Even (quoteCount front))⟩ :: after := by
  have hleft : (scan 0 none front).2.isNone = decide (Even (quoteCount front)) := by
    rw [Bool.eq_iff_iff, Option.isNone_iff_eq_none, left_eq_none_iff]
    simp
  have hhead : (c :: back).head? ≠ some (.char '\'') := fun h => hc (Option.some.inj h)
  rw [scan_append front hhead, scan_cons hc, hleft, Nat.zero_add]
  exact ⟨_, rfl⟩

/-! ## Positions -/

theorem le_position_of_mem_scan (t : Text) {position : Nat} {opened : Option Nat} {g : Glyph}
    (hg : g ∈ (scan position opened t).1) : position ≤ g.position := by
  induction t using quote_induction generalizing position opened with
  | nil => cases hg
  | pair rest ih =>
    rw [scan_quote_quote] at hg
    rcases List.mem_cons.1 hg with rfl | hg
    · exact Nat.le_refl _
    · exact Nat.le_trans (by omega) (ih hg)
  | lone rest h ih =>
    obtain ⟨opened', hs, -⟩ := scan_lone h position opened
    rw [hs] at hg
    exact Nat.le_trans (by omega) (ih hg)
  | other c rest hc ih =>
    rw [scan_cons hc] at hg
    rcases List.mem_cons.1 hg with rfl | hg
    · exact Nat.le_refl _
    · exact Nat.le_trans (by omega) (ih hg)

/-- Glyphs stand behind each other. -/
theorem pairwise_position_scan (t : Text) (position : Nat) (opened : Option Nat) :
    (scan position opened t).1.Pairwise fun g g' => g.position < g'.position := by
  induction t using quote_induction generalizing position opened with
  | nil => exact .nil
  | pair rest ih =>
    rw [scan_quote_quote]
    refine .cons (fun g hg => ?_) (ih _ _)
    exact Nat.lt_of_lt_of_le (Nat.lt_add_of_pos_right two_pos) (le_position_of_mem_scan rest hg)
  | lone rest h ih =>
    obtain ⟨opened', hs, -⟩ := scan_lone h position opened
    rw [hs]
    exact ih _ _
  | other c rest hc ih =>
    rw [scan_cons hc]
    refine .cons (fun g hg => ?_) (ih _ _)
    exact Nat.lt_of_lt_of_le (Nat.lt_succ_self _) (le_position_of_mem_scan rest hg)

end Glyph

/-! ## Spellings -/

theorem Specifier.spelling_whole (quantity : Quantity) (more : ℕ) :
    (whole quantity more).spelling = List.replicate (more + 1) quantity.letter := by
  simp [spelling, spelledWith, whole]

theorem Specifier.spelling_fractional (quantity : Quantity) (more : ℕ) (separator : Separator)
    (places : ℕ) : (fractional quantity more separator places).spelling =
      List.replicate (more + 1) quantity.letter ++
        separator.symbol :: List.replicate (places + 1) quantity.letter := by
  simp [spelling, spelledWith, fractional]

theorem Separator.symbol_of_ofSymbol? {c : CodePoint} {separator : Separator}
    (h : ofSymbol? c = some separator) : separator.symbol = c := by
  unfold ofSymbol? at h
  split at h
  · rename_i hc
    cases h
    exact hc.symm
  split at h
  · rename_i hc
    cases h
    exact hc.symm
  · cases h

namespace Token

variable {g : Glyph} {gs rest behind : List Glyph} {symbol : Symbol} {tokens : List Token}

/-! ## The glyphs of a token -/

/-- A reserved character that is no letter is all of its symbol. -/
theorem text_symbolOf {c : CodePoint} (hc : isReserved c = true)
    (hq : Quantity.ofLetter? c = none) : (symbolOf c).text = [c] := by
  simp only [isReserved, hq, Option.isSome_none, Bool.false_or, Bool.or_eq_true,
    beq_iff_eq] at hc
  rcases hc with (((rfl | rfl) | rfl) | rfl) | rfl <;> rfl

/-- A run of plain letters is spelled by repeating the letter. -/
theorem map_codePoint_letters {letter : CodePoint} {letters : List Glyph}
    (h : ∀ l ∈ letters, l.isPlain letter = true) :
    letters.map Glyph.codePoint = List.replicate letters.length letter := by
  refine List.eq_replicate_iff.2 ⟨List.length_map _, fun c hc => ?_⟩
  obtain ⟨l, hl, rfl⟩ := List.mem_map.1 hc
  exact (isPlain_iff.1 (h l hl)).2

/-- What a step takes for a symbol has the characters of the symbol. -/
theorem Step.exists_standFor (h : Step g rest symbol behind) :
    ∃ word, rest = word ++ behind ∧ Glyph.StandFor (g :: word) symbol := by
  cases h with
  | mark hg hq =>
    have hp := plain_of_isReserved hg
    rw [Glyph.isReserved, hp, Bool.true_and] at hg
    refine ⟨[], rfl, Glyph.standFor_of_plain (text_symbolOf hg hq).symm (symbolOf_ne_literal _) ?_⟩
    intro g' hg'
    rw [List.mem_singleton.1 hg', hp]
  | whole hg hq hf =>
    obtain ⟨letters, he, hlen, hall⟩ := exists_letters hg rest
    refine ⟨letters, he, Glyph.standFor_of_plain ?_ (fun _ => Symbol.noConfusion) fun l hl =>
      (isPlain_iff.1 (hall l hl)).1⟩
    rw [map_codePoint_letters hall, List.length_cons, hlen, ← Quantity.letter_of_ofLetter? hq]
    exact (Specifier.spelling_whole _ _).symm
  | @fractional quantity separator places _ hg hq hf hb =>
    obtain ⟨letters, he, hlen, hall⟩ := exists_letters hg rest
    obtain ⟨mark, first, more, hfrac, hm, hs, rfl, hmore, -⟩ := fraction?_eq_some_iff.1 hf
    refine ⟨letters ++ mark :: first :: more, ?_,
      Glyph.standFor_of_plain ?_ (fun _ => Symbol.noConfusion) fun l hl => ?_⟩
    · rw [he, hfrac, List.append_assoc]
      rfl
    · rw [← List.cons_append, List.map_append, map_codePoint_letters hall, List.map_cons,
        map_codePoint_letters hmore, List.length_cons, List.length_cons, hlen,
        ← Separator.symbol_of_ofSymbol? hs, ← Quantity.letter_of_ofLetter? hq]
      exact (Specifier.spelling_fractional _ _ _ _).symm
    · rw [← List.cons_append, List.mem_append] at hl
      rcases hl with hl | hl
      · exact (isPlain_iff.1 (hall l hl)).1
      rcases List.mem_cons.1 hl with rfl | hl
      · exact hm
      · exact (isPlain_iff.1 (hmore l hl)).1
  | literal hg =>
    obtain ⟨word, he, hm, hr⟩ := literalRun_spec rest
    refine ⟨word, he, by rw [List.map_cons, hm]; rfl, fun g' hg' => ?_⟩
    rcases List.mem_cons.1 hg' with rfl | hg'
    · exact hg
    · exact hr g' hg'

/-- The texts of the tokens are the characters of the glyphs. -/
theorem flatMap_text_of_group (h : group gs = .ok tokens) :
    tokens.flatMap text = gs.map Glyph.codePoint := by
  refine group_induction rfl (fun {g rest behind symbol more} hs _ ih => ?_) h
  obtain ⟨word, rfl, hstand⟩ := hs.exists_standFor
  rw [List.flatMap_cons, ih, ← List.cons_append, List.map_append, hstand.1]
  rfl

/-- Every token stands where its first glyph stands. -/
theorem sublist_position_of_group (h : group gs = .ok tokens) :
    (tokens.map position).Sublist (gs.map Glyph.position) := by
  refine group_induction .slnil (fun {g rest behind symbol more} hs _ ih => ?_) h
  obtain ⟨word, rfl, -⟩ := hs.exists_standFor
  rw [List.map_cons, List.map_cons, List.map_append]
  exact (ih.trans (List.sublist_append_right _ _)).cons_cons _

/-- Every token was taken from glyphs that stand together. -/
theorem exists_step_of_mem (h : group gs = .ok tokens) {t : Token} (ht : t ∈ tokens) :
    ∃ before g rest behind, gs = before ++ g :: rest ∧ t.position = g.position ∧
      Step g rest t.symbol behind := by
  revert ht
  refine group_induction nofun (fun {g rest behind symbol more} hs _ ih ht => ?_) h
  rcases List.mem_cons.1 ht with rfl | ht
  · exact ⟨[], g, rest, behind, rfl, rfl, hs⟩
  · obtain ⟨word, rfl, -⟩ := hs.exists_standFor
    obtain ⟨before, g', rest', behind', rfl, hp, hs'⟩ := ih ht
    exact ⟨g :: (word ++ before), g', rest', behind', by simp, hp, hs'⟩

/-- What is no literal was taken from the pattern scanned where the token stands. -/
theorem exists_scan_drop_of_mem {pattern : Text}
    (h : group (Glyph.scan 0 none pattern).1 = .ok tokens) {t : Token} (ht : t ∈ tokens)
    (hl : ∀ u, t.symbol ≠ .literal u) :
    ∃ g rest behind, (Glyph.scan t.position none (pattern.drop t.position)).1 = g :: rest ∧
      Step g rest t.symbol behind := by
  obtain ⟨before, g, rest, behind, hscan, hp, hs⟩ := exists_step_of_mem h ht
  obtain ⟨word, rfl, hstand⟩ := hs.exists_standFor
  obtain ⟨front, back, rfl, -, hpos, hback⟩ :=
    Glyph.exists_scan_eq_cons pattern hscan (hstand.plain hl g List.mem_cons_self)
  rw [Nat.zero_add] at hpos
  refine ⟨g, _, behind, ?_, hs⟩
  rw [hp, hpos, List.drop_left, ← hpos, hback]

/-- A token that is no literal is spelled in the pattern where it stands. -/
theorem prefix_drop_of_mem {pattern : Text} (h : group (Glyph.scan 0 none pattern).1 = .ok tokens)
    {t : Token} (ht : t ∈ tokens) (hl : ∀ u, t.symbol ≠ .literal u) :
    t.text <+: pattern.drop t.position := by
  obtain ⟨g, rest, behind, hscan, hs⟩ := exists_scan_drop_of_mem h ht hl
  obtain ⟨word, rfl, hstand⟩ := hs.exists_standFor
  obtain ⟨back, hback⟩ := Glyph.exists_eq_of_plain_front _ hscan (hstand.plain hl)
  rw [hback, hstand.1]
  exact List.prefix_append _ _

/-! ## The token of a character -/

/-- The token that holds the character at an index, counted through the texts of all tokens. -/
def at? : List Token → ℕ → Option Token
  | [], _ => none
  | t :: more, index =>
    if index < t.text.length then some t else at? more (index - t.text.length)

/-- Every glyph is one of the glyphs of the token that holds its character. -/
theorem exists_at?_of_group (h : group gs = .ok tokens) (before after : List Glyph)
    (hgs : gs = before ++ g :: after) :
    ∃ t ws, at? tokens before.length = some t ∧ g ∈ ws ∧ Glyph.StandFor ws t.symbol := by
  revert before
  refine group_induction (fun _ hgs => absurd hgs.symm (by simp))
    (fun {g' rest behind symbol more} hs _ ih before hgs => ?_) h
  obtain ⟨word, rfl, hstand⟩ := hs.exists_standFor
  have hlen : (Token.mk symbol g'.position).text.length = (g' :: word).length := by
    rw [Token.text, ← hstand.1, List.length_map]
  rw [at?, hlen]
  rw [← List.cons_append] at hgs
  by_cases hlt : before.length < (g' :: word).length
  · have hmem : (g' :: word)[before.length]? = some g := by
      rw [← List.getElem?_append_left hlt, hgs, List.getElem?_append_right (Nat.le_refl _)]
      simp
    rw [if_pos hlt]
    exact ⟨_, _, rfl, List.mem_of_getElem? hmem, hstand⟩
  -- the glyph stands behind this token
  · obtain ⟨between, rfl⟩ :=
      List.prefix_of_prefix_length_le ⟨behind, hgs⟩ ⟨g :: after, rfl⟩ (Nat.not_lt.1 hlt)
    rw [List.append_assoc] at hgs
    rw [if_neg hlt, List.length_append, Nat.add_sub_cancel_left]
    exact ih between (List.append_cancel_left hgs)

/-- What is no literal has reserved characters only, apart from a separator. -/
theorem isReserved_of_mem_text (hl : ∀ u, symbol ≠ .literal u) {c : CodePoint}
    (hc : c ∈ symbol.text) (hs : Specifier.isSeparator c = false) : isReserved c = true := by
  cases symbol with
  | literal u => exact absurd rfl (hl u)
  | field s =>
    rcases Specifier.mem_spelling hc with rfl | rfl
    · exact isReserved_letter _
    · simp [Specifier.isSeparator] at hs
  | hemisphere kind =>
    rw [List.mem_singleton.1 hc]
    cases kind <;> rfl
  | _ =>
    rw [List.mem_singleton.1 hc]
    rfl

/-- A glyph that is no separator is one of a literal exactly if it is not reserved. -/
theorem literal_iff_of_standFor {ws : List Glyph} (h : Glyph.StandFor ws symbol) (hg : g ∈ ws)
    (hs : Specifier.isSeparator g.codePoint = false) :
    (∃ u, symbol = .literal u) ↔ g.isReserved = false := by
  constructor
  · rintro ⟨u, rfl⟩
    exact h.2 g hg
  · intro hr
    by_contra hl
    push Not at hl
    have hmem : g.codePoint ∈ symbol.text := h.1 ▸ List.mem_map_of_mem hg
    rw [Glyph.isReserved, h.plain hl g hg, isReserved_of_mem_text hl hmem hs] at hr
    cases hr

/-- A character of the pattern is in a literal exactly if it is not reserved or stands in quotes. -/
theorem exists_at?_of_char {front back : Text} {c : CodePoint}
    (h : group (Glyph.scan 0 none (front ++ c :: back)).1 = .ok tokens) (hc : c ≠ .char '\'')
    (hs : Specifier.isSeparator c = false) :
    ∃ t, at? tokens (resolveQuotes front).length = some t ∧
      ((∃ u, t.symbol = .literal u) ↔ isReserved c = false ∨ Odd (quoteCount front)) := by
  obtain ⟨after, hscan⟩ := Glyph.exists_scan_eq_append front hc back
  obtain ⟨t, ws, ht, hg, hstand⟩ := exists_at?_of_group h _ after hscan
  rw [← List.length_map Glyph.codePoint, Glyph.map_codePoint_scan] at ht
  refine ⟨t, ht, (literal_iff_of_standFor hstand hg hs).trans ?_⟩
  rw [Glyph.isReserved, Bool.and_eq_false_iff, decide_eq_false_iff_not, Nat.not_even_iff_odd,
    or_comm]

/-! ## Fields -/

/-- One or more of a letter, or that on both sides of a separator. -/
def IsRun (letter : CodePoint) (w : Text) : Prop :=
  ∃ more, w = List.replicate (more + 1) letter ∨
    ∃ separator places, Specifier.isSeparator separator = true ∧
      w = List.replicate (more + 1) letter ++ separator :: List.replicate (places + 1) letter

theorem isRun_spelling (s : Specifier) : IsRun s.quantity.letter s.spelling := by
  obtain ⟨more, hmore⟩ : ∃ more, s.integerDigits = more + 1 :=
    Nat.exists_eq_add_one.2 s.integerDigits_pos
  refine ⟨more, ?_⟩
  unfold Specifier.spelling Specifier.spelledWith
  rw [hmore]
  by_cases hf : s.fractionDigits = 0
  · rw [if_pos hf, List.append_nil]
    exact .inl rfl
  · obtain ⟨places, hplaces⟩ := Nat.exists_eq_add_one.2 (Nat.pos_of_ne_zero hf)
    rw [if_neg hf, hplaces]
    exact .inr ⟨_, places, by simp [Specifier.isSeparator], rfl⟩

theorem letters_of_map_codePoint {letter : CodePoint} {letters : List Glyph} {n : ℕ}
    (h : letters.map Glyph.codePoint = List.replicate n letter)
    (hp : ∀ l ∈ letters, l.plain = true) :
    letters.length = n ∧ ∀ l ∈ letters, l.isPlain letter = true := by
  obtain ⟨hlen, hall⟩ := List.eq_replicate_iff.1 h
  rw [List.length_map] at hlen
  exact ⟨hlen, fun l hl => isPlain_iff.2 ⟨hp l hl, hall _ (List.mem_map_of_mem hl)⟩⟩

/-- The glyphs of a run are taken as letters, and as a fraction if there is a separator. -/
theorem run_cases {letter : CodePoint} (hletter : (Quantity.ofLetter? letter).isSome = true)
    {word : List Glyph} (hp : ∀ l ∈ word, l.plain = true)
    (hrun : IsRun letter (letter :: word.map Glyph.codePoint)) (after : List Glyph) :
    (∃ more extra, word.map Glyph.codePoint = List.replicate more letter ∧
      (letterRun letter (word ++ after)).1 = more + extra) ∨
    ∃ more separator places extra behind, word.map Glyph.codePoint =
        List.replicate more letter ++ separator.symbol :: List.replicate (places + 1) letter ∧
      letterRun letter (word ++ after) = (more, behind) ∧
      ∃ last, fraction? letter behind = some (separator, places + extra, last) := by
  obtain ⟨more, hw | ⟨mark, places, hmark, hw⟩⟩ := hrun
  · have hw' : word.map Glyph.codePoint = List.replicate more letter := (List.cons.inj hw).2
    obtain ⟨hlen, hall⟩ := letters_of_map_codePoint hw' hp
    refine .inl ⟨more, (letterRun letter after).1, hw', ?_⟩
    rw [letterRun_letters_append hall, hlen]
  · have hw' : word.map Glyph.codePoint =
        List.replicate more letter ++ mark :: List.replicate (places + 1) letter :=
      (List.cons.inj hw).2
    obtain ⟨separator, hs⟩ := Option.isSome_iff_exists.1 hmark
    obtain rfl := Separator.symbol_of_ofSymbol? hs
    obtain ⟨letters, tail, rfl, hletters, htail⟩ := List.map_eq_append_iff.1 hw'
    obtain ⟨m, tail, rfl, hm, htail⟩ := List.map_eq_cons_iff.1 htail
    obtain ⟨first, last, rfl, hfirst, hlast⟩ := List.map_eq_cons_iff.1 htail
    obtain ⟨hlen, hall⟩ := letters_of_map_codePoint hletters fun l hl => hp l (by simp [hl])
    obtain ⟨hlen', hall'⟩ := letters_of_map_codePoint hlast fun l hl => hp l (by simp [hl])
    -- the separator ends the run of letters
    have hstop : m.isPlain letter = false := by
      rw [← Bool.not_eq_true, isPlain_iff]
      rintro ⟨-, hc⟩
      rw [← hm, hc, ofSymbol?_eq_none_of_letter hletter] at hs
      cases hs
    refine .inr ⟨more, separator, places, (letterRun letter after).1,
      m :: first :: (last ++ after), hw', ?_, (letterRun letter after).2, ?_⟩
    · rw [List.append_assoc, List.cons_append, List.cons_append, letterRun_append hall, hlen]
      intro l hl
      rw [← Option.some.inj hl]
      exact hstop
    · rw [fraction?, hm, hs, letterRun_letters_append hall', hlen']
      exact if_pos ⟨hp m (by simp), isPlain_iff.2 ⟨hp first (by simp), hfirst⟩⟩

theorem replicate_prefix_replicate (n k : ℕ) (c : CodePoint) :
    List.replicate (n + 1) c <+: List.replicate (n + k + 1) c :=
  ⟨List.replicate k c, by rw [List.replicate_append_replicate, Nat.add_right_comm]⟩

theorem symbolOf_ne_field (c : CodePoint) (s : Specifier) : symbolOf c ≠ .field s := by
  unfold symbolOf
  repeat' split
  all_goals exact Symbol.noConfusion

/-- A run of the letter in front is part of the field that is taken there. -/
theorem Step.prefix_of_isRun {s : Specifier} {word after : List Glyph}
    (h : Step g (word ++ after) (.field s) behind) (hp : ∀ l ∈ word, l.plain = true)
    (hrun : IsRun s.quantity.letter (g.codePoint :: word.map Glyph.codePoint)) :
    g.codePoint :: word.map Glyph.codePoint <+: s.spelling := by
  generalize hsymbol : Symbol.field s = symbol at h
  generalize hrest : word ++ after = rest at h
  cases h with
  | mark => exact absurd hsymbol.symm (symbolOf_ne_field _ s)
  | literal => cases hsymbol
  | @whole quantity hg hq hf =>
    cases hsymbol
    rw [show (Specifier.whole quantity _).quantity.letter = _ from
      Quantity.letter_of_ofLetter? hq] at hrun
    rw [Specifier.spelling_whole, Quantity.letter_of_ofLetter? hq]
    rcases run_cases (by rw [hq]; rfl) hp hrun after with
      ⟨more, extra, hw, hlen⟩ | ⟨more, separator, places, extra, behind, hw, hlen, last, hfrac⟩
    · rw [hw, ← hrest, hlen]
      exact replicate_prefix_replicate _ _ _
    · rw [← hrest, hlen, hfrac] at hf
      cases hf
  | @fractional quantity separator places _ hg hq hf hb =>
    cases hsymbol
    rw [show (Specifier.fractional quantity _ separator places).quantity.letter = _ from
      Quantity.letter_of_ofLetter? hq] at hrun
    rw [Specifier.spelling_fractional, Quantity.letter_of_ofLetter? hq]
    rcases run_cases (by rw [hq]; rfl) hp hrun after with
      ⟨more, extra, hw, hlen⟩ | ⟨more, mark, fewer, extra, behind, hw, hlen, last, hfrac⟩
    · rw [hw, ← hrest, hlen]
      exact (replicate_prefix_replicate _ _ _).trans (List.prefix_append _ _)
    · rw [← hrest, hlen, hfrac] at hf
      cases hf
      rw [hw, ← hrest, hlen, ← List.cons_append, ← List.replicate_succ]
      exact (List.prefix_append_right_inj _).2
        (List.cons_prefix_cons.2 ⟨rfl, replicate_prefix_replicate _ _ _⟩)

theorem IsRun.ne_nil {letter : CodePoint} {w : Text} (h : IsRun letter w) : w ≠ [] := by
  obtain ⟨more, rfl | ⟨mark, places, -, rfl⟩⟩ := h <;> exact List.cons_ne_nil _ _

theorem IsRun.ne_quote {q : Quantity} {w : Text} (h : IsRun q.letter w) :
    ∀ c ∈ w, c ≠ .char '\'' := by
  have hletters {n : ℕ} {c : CodePoint} (hc : c ∈ List.replicate n q.letter) : c ≠ .char '\'' :=
    List.eq_of_mem_replicate hc ▸ q.letter_ne_quote
  obtain ⟨more, rfl | ⟨mark, places, hmark, rfl⟩⟩ := h
  · exact fun c => hletters
  · intro c hc
    rcases List.mem_append.1 hc with hc | hc
    · exact hletters hc
    rcases List.mem_cons.1 hc with rfl | hc
    · rintro rfl
      cases hmark
    · exact hletters hc

/-- A field is the longest run of its letter where it stands. -/
theorem isLongest_of_mem {pattern : Text} (h : group (Glyph.scan 0 none pattern).1 = .ok tokens)
    {t : Token} (ht : t ∈ tokens) {s : Specifier} (hs : t.symbol = .field s) :
    Text.IsLongest (IsRun s.quantity.letter) t.text (pattern.drop t.position) := by
  have hl : ∀ u, t.symbol ≠ .literal u := by
    rw [hs]
    exact fun _ => Symbol.noConfusion
  have htext : t.text = s.spelling := congrArg Symbol.text hs
  refine ⟨htext ▸ isRun_spelling s, prefix_drop_of_mem h ht hl, ?_⟩
  rintro v hv ⟨more, hmore⟩
  obtain ⟨g, rest, behind, hscan, hstep⟩ := exists_scan_drop_of_mem h ht hl
  -- outside of quotes the run is scanned as plain glyphs
  obtain ⟨ws, next, hws, hv', hp⟩ := Glyph.scan_plain v hv.ne_quote t.position more
  rw [hmore] at hws
  rw [hws] at hscan
  cases ws with
  | nil => exact absurd hv'.symm hv.ne_nil
  | cons g' word =>
    obtain ⟨rfl, rfl⟩ := List.cons.inj hscan
    rw [htext, ← hv']
    rw [← hv'] at hv
    rw [hs] at hstep
    exact hstep.prefix_of_isRun (fun l hl => hp l (List.mem_cons_of_mem _ hl)) hv

end Token

/-! ## Patterns -/

theorem resolveQuotes_append (front : Text) {c : CodePoint} (hc : c ≠ .char '\'') (back : Text) :
    resolveQuotes (front ++ c :: back) = resolveQuotes front ++ c :: resolveQuotes back := by
  have hhead : (c :: back).head? ≠ some (.char '\'') := fun h => hc (Option.some.inj h)
  rw [← Glyph.map_codePoint_scan _ 0 none, Glyph.scan_append front hhead, List.map_append,
    Glyph.map_codePoint_scan, Glyph.map_codePoint_scan, resolveQuotes_cons hc]

/-- Tokens cover a pattern: put together they are the pattern with its quotes resolved, and each of
its characters is in a token as its place asks for. -/
structure Cover (pattern : Text) (tokens : List Token) : Prop where
  text : tokens.flatMap Token.text = resolveQuotes pattern
  position : tokens.Pairwise fun t t' => t.position < t'.position
  separated : Symbol.Separated (tokens.map Token.symbol)
  slice : ∀ t ∈ tokens, (∀ u, t.symbol ≠ .literal u) → t.text <+: pattern.drop t.position
  literal : ∀ front c back, pattern = front ++ c :: back → c ≠ .char '\'' →
    Specifier.isSeparator c = false →
      resolveQuotes pattern = resolveQuotes front ++ c :: resolveQuotes back ∧
      ∃ t, Token.at? tokens (resolveQuotes front).length = some t ∧
        ((∃ u, t.symbol = .literal u) ↔ isReserved c = false ∨ Odd (quoteCount front))
  field : ∀ t ∈ tokens, ∀ s, t.symbol = .field s →
    Text.IsLongest (Token.IsRun s.quantity.letter) t.text (pattern.drop t.position)

/-- The tokens of a pattern cover it. -/
theorem tokenize_cover {pattern : Text} {tokens : List Token} (h : tokenize pattern = .ok tokens) :
    Cover pattern tokens := by
  obtain ⟨gs, hs, hg⟩ := tokenize_eq_ok_iff.1 h
  obtain rfl : (Glyph.scan 0 none pattern).1 = gs := by rw [hs]
  constructor
  · rw [Token.flatMap_text_of_group hg, Glyph.map_codePoint_scan]
  · have hpositions := List.pairwise_map.2 (Glyph.pairwise_position_scan pattern 0 none)
    exact List.pairwise_map.1 (hpositions.sublist (Token.sublist_position_of_group hg))
  · exact Token.separated_group hg
  · exact fun t => Token.prefix_drop_of_mem hg
  · rintro front c back rfl hc hsep
    exact ⟨resolveQuotes_append front hc back, Token.exists_at?_of_char hg hc hsep⟩
  · exact fun t ht s => Token.isLongest_of_mem hg ht

/-- A quote inside of quotes, and a reserved letter. -/
theorem tokenize_cover_quotes :
    ∃ tokens, tokenize (Text.lit "D.D' N'''X") = .ok tokens ∧ tokens.length = 3 ∧
      Cover (Text.lit "D.D' N'''X") tokens := by
  obtain ⟨tokens, h, hlen⟩ : ∃ tokens, tokenize (Text.lit "D.D' N'''X") = .ok tokens ∧
    tokens.length = 3 := by decide +kernel
  exact ⟨tokens, h, hlen, tokenize_cover h⟩

end GeoPattern
