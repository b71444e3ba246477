/-
A spelled pattern is read back. The symbols of a pattern, each spelled on its own and put one
behind the other, are the tokens of that text: a quote belongs to its own literal since no literal
stands next to another one, and a run of letters ends with its own field since no letter occurs in
two fields.
Main statements: a text is read back from what it is escaped to (`escape_exact`), and the pattern
that a formatter regenerates from its tree is compiled to the same tree (`toPattern_faithful`).
-/
import GeoPattern.Proofs.Pattern.Assemble
import GeoPattern.Proofs.Pattern.Group
import GeoPattern.Proofs.Pattern.Validate

namespace GeoPattern

open Node

/-! ## Quotes -/

namespace Glyph

theorem scan_cons {c : CodePoint} (hc : c ≠ .char '\'') (position : Nat) (opened : Option Nat)
    (rest : Text) :
    scan position opened (c :: rest) =
      (⟨c, position, opened.isNone⟩ :: (scan (position + 1) opened rest).1,
        (scan (position + 1) opened rest).2) := by
  rw [scan]
  · rintro more rfl; exact fun h => absurd rfl hc
  · rintro rfl; exact absurd rfl hc

theorem scan_quote_quote (position : Nat) (opened : Option Nat) (rest : Text) :
    scan position opened (.char '\'' :: .char '\'' :: rest) =
      (⟨.char '\'', position, false⟩ :: (scan (position + 2) opened rest).1,
        (scan (position + 2) opened rest).2) := rfl

/-- A quote that no quote follows opens quoted text. -/
theorem scan_open {rest : Text} (h : rest.head? ≠ some (.char '\'')) (position : Nat) :
    scan position none (.char '\'' :: rest) = scan (position + 1) (some position) rest :=
  scan.eq_3 position rest fun more hm => h (by rw [hm]; rfl)

/-- A quote that no quote follows closes quoted text. -/
theorem scan_close {rest : Text} (h : rest.head? ≠ some (.char '\'')) (position first : Nat) :
    scan position (some first) (.char '\'' :: rest) = scan (position + 1) none rest :=
  scan.eq_4 position rest first fun more hm => h (by rw [hm]; rfl)

/-- Characters other than quotes outside of quoted text are plain glyphs. -/
theorem scan_plain (t : Text) (ht : ∀ c ∈ t, c ≠ .char '\'') (position : Nat) (rest : Text) :
    ∃ gs next, scan position none (t ++ rest) =
        (gs ++ (scan next none rest).1, (scan next none rest).2) ∧
      gs.map codePoint = t ∧ ∀ g ∈ gs, g.plain = true := by
  induction t generalizing position with
  | nil => exact ⟨[], position, rfl, rfl, fun g hg => absurd hg (List.not_mem_nil)⟩
  | cons c t ih =>
    obtain ⟨gs, next, hs, hm, hp⟩ := ih (fun d hd => ht d (List.mem_cons_of_mem _ hd)) (position + 1)
    refine ⟨⟨c, position, true⟩ :: gs, next, ?_, by rw [List.map_cons, hm], ?_⟩
    · rw [List.cons_append, scan_cons (ht c List.mem_cons_self), hs]; rfl
    · intro g hg
      rcases List.mem_cons.1 hg with rfl | hg
      · rfl
      · exact hp g hg

/-- Doubled quotes pair up from the left, so the glyphs are the characters of the text, and none
of them is plain inside of quoted text. -/
theorem scan_doubleQuotes (t : Text) (position : Nat) (opened : Option Nat) (rest : Text) :
    ∃ gs next, scan position opened (doubleQuotes t ++ rest) =
        (gs ++ (scan next opened rest).1, (scan next opened rest).2) ∧
      gs.map codePoint = t ∧ ∀ g ∈ gs, g.plain = true → opened = none := by
  induction t generalizing position with
  | nil => exact ⟨[], position, rfl, rfl, fun g hg => absurd hg (List.not_mem_nil)⟩
  | cons c t ih =>
    by_cases hc : c = .char '\''
    · subst hc
      obtain ⟨gs, next, hs, hm, hp⟩ := ih (position + 2)
      refine ⟨⟨.char '\'', position, false⟩ :: gs, next, ?_, by rw [List.map_cons, hm], ?_⟩
      · rw [doubleQuotes, if_pos rfl, List.cons_append, List.cons_append, scan_quote_quote, hs]
        rfl
      · intro g hg
        rcases List.mem_cons.1 hg with rfl | hg
        · exact fun h => absurd h Bool.false_ne_true
        · exact hp g hg
    · obtain ⟨gs, next, hs, hm, hp⟩ := ih (position + 1)
      refine ⟨⟨c, position, opened.isNone⟩ :: gs, next, ?_, by rw [List.map_cons, hm], ?_⟩
      · rw [doubleQuotes, if_neg hc, List.cons_append, scan_cons hc, hs]; rfl
      · intro g hg
        rcases List.mem_cons.1 hg with rfl | hg
        · exact fun h => Option.isNone_iff_eq_none.1 h
        · exact hp g hg

theorem head?_doubleQuotes {c : CodePoint} {t : Text} (hc : c ≠ .char '\'') (rest : Text) :
    (doubleQuotes (c :: t) ++ rest).head? ≠ some (.char '\'') := by
  rw [doubleQuotes, if_neg hc]
  exact fun h => hc (Option.some.inj h)

/-- A text in quotes gives its own characters, none of them plain. The quotes at its front pair up
with the opening one until that one stands alone, those at its end leave the closing one over. -/
theorem scan_quoted {t : Text} (h : ∃ c ∈ t, c ≠ .char '\'') (position : Nat) {rest : Text}
    (hrest : rest.head? ≠ some (.char '\'')) :
    ∃ gs next, scan position none (.char '\'' :: doubleQuotes t ++ .char '\'' :: rest) =
        (gs ++ (scan next none rest).1, (scan next none rest).2) ∧
      gs.map codePoint = t ∧ ∀ g ∈ gs, g.plain = false := by
  induction t generalizing position with
  | nil => obtain ⟨c, hc, -⟩ := h; cases hc
  | cons c t ih =>
    by_cases hc : c = .char '\''
    · subst hc
      have h' : ∃ d ∈ t, d ≠ .char '\'' := by
        obtain ⟨d, hd, hne⟩ := h
        rcases List.mem_cons.1 hd with rfl | hd
        · exact absurd rfl hne
        · exact ⟨d, hd, hne⟩
      obtain ⟨gs, next, hs, hm, hp⟩ := ih h' (position + 2)
      refine ⟨⟨.char '\'', position, false⟩ :: gs, next, ?_, by rw [List.map_cons, hm], ?_⟩
      · rw [doubleQuotes, if_pos rfl, List.cons_append, List.cons_append, scan_quote_quote]
        rw [List.cons_append] at hs ⊢
        rw [hs]
        rfl
      · intro g hg
        rcases List.mem_cons.1 hg with rfl | hg
        · rfl
        · exact hp g hg
    -- the opening quote stands alone here, and the rest is scanned inside of it
    · obtain ⟨gs, next, hs, hm, hp⟩ :=
        scan_doubleQuotes (c :: t) (position + 1) (some position) (.char '\'' :: rest)
      refine ⟨gs, next + 1, ?_, hm, fun g hg => ?_⟩
      · rw [List.cons_append, scan_open (head?_doubleQuotes hc _), hs, scan_close hrest]
      · rcases hg' : g.plain with - | -
        · rfl
        · exact absurd (hp g hg hg') (by simp)

/-- Glyphs stand for a symbol: they have its characters, and are plain, or for a literal not
reserved. -/
def StandFor (gs : List Glyph) (symbol : Symbol) : Prop :=
  gs.map codePoint = symbol.text ∧
    match symbol with
    | .literal _ => ∀ g ∈ gs, g.isReserved = false
    | _ => ∀ g ∈ gs, g.plain = true

theorem StandFor.plain {gs : List Glyph} {symbol : Symbol} (h : StandFor gs symbol)
    (hl : ∀ t, symbol ≠ .literal t) : ∀ g ∈ gs, g.plain = true := by
  cases symbol with
  | literal t => exact absurd rfl (hl t)
  | _ => exact h.2

theorem standFor_of_plain {gs : List Glyph} {symbol : Symbol}
    (hm : gs.map codePoint = symbol.text) (hl : ∀ t, symbol ≠ .literal t)
    (hp : ∀ g ∈ gs, g.plain = true) : StandFor gs symbol := by
  refine ⟨hm, ?_⟩
  cases symbol with
  | literal t => exact absurd rfl (hl t)
  | _ => exact hp

end Glyph

theorem Separator.symbol_ne_quote (s : Separator) : s.symbol ≠ .char '\'' := by
  cases s <;> decide

theorem Quantity.letter_ne_quote (q : Quantity) : q.letter ≠ .char '\'' := by
  cases q <;> decide

/-- A specifier is spelled with its letter and its separator. -/
theorem Specifier.mem_spelling {s : Specifier} {c : CodePoint} (h : c ∈ s.spelling) :
    c = s.quantity.letter ∨ c = s.separator.symbol := by
  unfold spelling spelledWith at h
  rcases List.mem_append.1 h with h | h
  · exact .inl (List.eq_of_mem_replicate h)
  · split at h
    · cases h
    · rcases List.mem_cons.1 h with h | h
      · exact .inr h
      · exact .inl (List.eq_of_mem_replicate h)

theorem Symbol.quote_notMem_text {symbol : Symbol} (h : ∀ t, symbol ≠ .literal t) :
    ∀ c ∈ symbol.text, c ≠ .char '\'' := by
  intro c hc
  cases symbol with
  | literal t => exact absurd rfl (h t)
  | field s =>
    rcases Specifier.mem_spelling hc with rfl | rfl
    · exact Quantity.letter_ne_quote _
    · exact Separator.symbol_ne_quote _
  | hemisphere kind =>
    obtain rfl := List.mem_singleton.1 hc
    cases kind <;> decide
  | sign => obtain rfl := List.mem_singleton.1 hc; decide
  | optionalStart => obtain rfl := List.mem_singleton.1 hc; decide
  | optionalEnd => obtain rfl := List.mem_singleton.1 hc; decide

theorem isReserved_quote : isReserved (.char '\'') = false := by decide

namespace Glyph

/-- The spelling of a symbol is scanned to glyphs that stand for it; behind a literal there must be
no quote. -/
theorem scan_spelling (symbol : Symbol) (position : Nat) {rest : Text}
    (h : ∀ t, symbol = .literal t → rest.head? ≠ some (.char '\'')) :
    ∃ gs next, scan position none (symbol.spelling ++ rest) =
      (gs ++ (scan next none rest).1, (scan next none rest).2) ∧ StandFor gs symbol := by
  by_cases hl : ∃ t, symbol = .literal t
  -- a literal is quoted if a character of it is reserved; only its quotes are doubled otherwise
  · obtain ⟨t, rfl⟩ := hl
    have hrest := h t rfl
    rw [Symbol.spelling, escape]
    split
    · rename_i hr
      have hq : ∃ c ∈ t, c ≠ .char '\'' := by
        obtain ⟨c, hc, hres⟩ := List.any_eq_true.1 hr
        refine ⟨c, hc, ?_⟩
        rintro rfl
        exact absurd hres (by simp [isReserved_quote])
      obtain ⟨gs, next, hs, hm, hp⟩ := scan_quoted hq position hrest
      refine ⟨gs, next, ?_, hm, fun g hg => by simp [isReserved, hp g hg]⟩
      rw [← hs]
      simp
    · rename_i hr
      obtain ⟨gs, next, hs, hm, -⟩ := scan_doubleQuotes t position none rest
      refine ⟨gs, next, hs, hm, fun g hg => ?_⟩
      have hg' : g.codePoint ∈ t := hm ▸ List.mem_map_of_mem hg
      have : GeoPattern.isReserved g.codePoint = false := by
        rw [Bool.not_eq_true, List.any_eq_false] at hr
        simpa using hr _ hg'
      simp [isReserved, this]
  · have hne : ∀ t, symbol ≠ .literal t := fun t ht => hl ⟨t, ht⟩
    obtain ⟨gs, next, hs, hm, hp⟩ := scan_plain _ (Symbol.quote_notMem_text hne) position rest
    have hspell : symbol.spelling = symbol.text := by
      cases symbol with
      | literal t => exact absurd rfl (hne t)
      | _ => rfl
    refine ⟨gs, next, by rw [hspell, hs], hm, ?_⟩
    cases symbol with
    | literal t => exact absurd rfl (hne t)
    | _ => exact hp

end Glyph

/-! ## Grouping -/

theorem Specifier.eq_whole {s : Specifier} (h : s.fractionDigits = 0) :
    s = .whole s.quantity (s.integerDigits - 1) := by
  obtain ⟨q, i, sep, f, hi, hs⟩ := s
  obtain rfl : f = 0 := h
  obtain rfl : sep = .point := hs rfl
  obtain ⟨more, rfl⟩ : ∃ more, i = more + 1 := ⟨i - 1, by omega⟩
  rfl

theorem Specifier.eq_fractional {s : Specifier} (h : s.fractionDigits ≠ 0) :
    s = .fractional s.quantity (s.integerDigits - 1) s.separator (s.fractionDigits - 1) := by
  obtain ⟨q, i, sep, f, hi, hs⟩ := s
  obtain ⟨more, rfl⟩ : ∃ more, i = more + 1 := ⟨i - 1, by omega⟩
  obtain ⟨places, rfl⟩ : ∃ places, f = places + 1 := ⟨f - 1, by simp only at h; omega⟩
  rfl

namespace Token

/-- Plain letters in front make a run longer. -/
theorem letterRun_letters_append {letter : CodePoint} {gs : List Glyph}
    (hg : ∀ g ∈ gs, g.isPlain letter = true) (behind : List Glyph) :
    letterRun letter (gs ++ behind) =
      (gs.length + (letterRun letter behind).1, (letterRun letter behind).2) := by
  induction gs with
  | nil => rw [List.nil_append, List.length_nil, Nat.zero_add]
  | cons g gs ih =>
    rw [List.cons_append, letterRun, if_pos (hg g List.mem_cons_self),
      ih fun g' hg' => hg g' (List.mem_cons_of_mem _ hg'), List.length_cons, Nat.add_right_comm]

theorem letterRun_append {letter : CodePoint} {gs behind : List Glyph}
    (hg : ∀ g ∈ gs, g.isPlain letter = true)
    (hb : ∀ g, behind.head? = some g → g.isPlain letter = false) :
    letterRun letter (gs ++ behind) = (gs.length, behind) := by
  have hbehind : letterRun letter behind = (0, behind) := by
    cases behind with
    | nil => rfl
    | cons b behind => rw [letterRun, if_neg (by simp [hb b rfl])]
  rw [letterRun_letters_append hg, hbehind, Nat.add_zero]

theorem fraction?_eq_none {letter : CodePoint} {gs : List Glyph}
    (h : ∀ g ∈ gs, g.isPlain letter = false) : fraction? letter gs = none := by
  unfold fraction?
  split
  · rename_i mark first rest
    have hfirst : first.isPlain letter = false := h first (by simp)
    split
    · rw [if_neg (by simp [hfirst])]
    · rfl
  · rfl

theorem literalRun_append {gs behind : List Glyph} (hg : ∀ g ∈ gs, g.isReserved = false)
    (hb : ∀ g, behind.head? = some g → g.isReserved = true) :
    literalRun (gs ++ behind) = (gs.map Glyph.codePoint, behind) := by
  induction gs with
  | nil =>
    cases behind with
    | nil => rfl
    | cons b behind =>
      rw [List.nil_append, literalRun, if_pos (hb b rfl)]
      rfl
  | cons g gs ih =>
    rw [List.cons_append, literalRun, if_neg (by simp [hg g List.mem_cons_self]),
      ih fun g' hg' => hg g' (List.mem_cons_of_mem _ hg')]
    rfl

end Token

theorem isReserved_letter (q : Quantity) : isReserved q.letter = true := by
  cases q <;> rfl

theorem separator_ne_letter (separator : Separator) (q : Quantity) :
    separator.symbol ≠ q.letter := by
  cases separator <;> cases q <;> decide

namespace Glyph.StandFor

/-- The glyphs of a field: a first letter, the other letters of the integer digits, and if there
are fraction digits the separator and their letters. -/
theorem field_shape {gs : List Glyph} {s : Specifier} (h : StandFor gs (.field s)) :
    ∃ first more tail, gs = first :: (more ++ tail) ∧
      first.codePoint = s.quantity.letter ∧ first.isReserved = true ∧
      more.length + 1 = s.integerDigits ∧ (∀ g ∈ more, g.isPlain s.quantity.letter = true) ∧
      (s.fractionDigits = 0 ∧ tail = [] ∨
        ∃ mark second places, tail = mark :: second :: places ∧ mark.plain = true ∧
          mark.codePoint = s.separator.symbol ∧ places.length + 1 = s.fractionDigits ∧
          ∀ g ∈ second :: places, g.isPlain s.quantity.letter = true) := by
  obtain ⟨hm, hp⟩ := h
  obtain ⟨a, tail, rfl, ha, ht⟩ := List.map_eq_append_iff.1 hm
  obtain ⟨hal, ha⟩ := List.eq_replicate_iff.1 ha
  rw [List.length_map] at hal
  have hcp : ∀ g ∈ a, g.codePoint = s.quantity.letter := fun g hg => ha _ (List.mem_map_of_mem hg)
  obtain ⟨first, more, rfl⟩ := List.exists_cons_of_length_pos (hal ▸ s.integerDigits_pos)
  have hfirst := hcp first List.mem_cons_self
  refine ⟨first, more, tail, rfl, hfirst, ?_, hal, fun g hg => ?_, ?_⟩
  · simp [Glyph.isReserved, hp first (by simp), hfirst, isReserved_letter]
  · simp [Glyph.isPlain, hp g (by simp [hg]), hcp g (by simp [hg])]
  -- what is left is the separator with its letters, or nothing
  by_cases hf : s.fractionDigits = 0
  · rw [if_pos hf, List.map_eq_nil_iff] at ht
    exact .inl ⟨hf, ht⟩
  · rw [if_neg hf] at ht
    obtain ⟨mark, letters, rfl, hmark, hl⟩ := List.map_eq_cons_iff.1 ht
    obtain ⟨hll, hl⟩ := List.eq_replicate_iff.1 hl
    rw [List.length_map] at hll
    obtain ⟨second, places, rfl⟩ := List.exists_cons_of_length_pos (hll ▸ Nat.pos_of_ne_zero hf)
    refine .inr ⟨mark, second, places, rfl, hp mark (by simp), hmark, hll, fun g hg => ?_⟩
    have hg' : g.plain = true := hp g (by
      rw [List.mem_append]; exact .inr (List.mem_cons_of_mem _ hg))
    simp [Glyph.isPlain, hg', hl _ (List.mem_map_of_mem hg)]

end Glyph.StandFor

namespace Token

/-- Glyphs of a field are grouped to it if its letter is not plain anywhere behind them. -/
theorem group_field {gs behind : List Glyph} {s : Specifier} (h : Glyph.StandFor gs (.field s))
    (hb : ∀ g ∈ behind, g.isPlain s.quantity.letter = false) :
    ∃ position, group (gs ++ behind) = (⟨.field s, position⟩ :: ·) <$> group behind := by
  have hhead : ∀ g, behind.head? = some g → g.isPlain s.quantity.letter = false :=
    fun g hg => hb g (List.mem_of_head? hg)
  obtain ⟨first, more, tail, rfl, hfirst, hres, hlen, hmore, htail⟩ := h.field_shape
  have hq : Quantity.ofLetter? first.codePoint = some s.quantity := by
    rw [hfirst, Quantity.ofLetter?_letter]
  refine ⟨first.position, ?_⟩
  rcases htail with ⟨hf, rfl⟩ | ⟨mark, second, places, rfl, hmp, hmc, hplaces, hletters⟩
  · have hrun : letterRun first.codePoint (more ++ behind) = (more.length, behind) := by
      rw [hfirst]; exact letterRun_append hmore hhead
    -- a separator behind the letters would need the letter again behind it, which is nowhere
    have hnone : fraction? first.codePoint (letterRun first.codePoint (more ++ behind)).2 = none := by
      rw [hrun, hfirst]; exact fraction?_eq_none hb
    rw [List.append_nil, List.cons_append, (Step.whole hres hq hnone).group_eq, hrun,
      show more.length = s.integerDigits - 1 by omega, ← Specifier.eq_whole hf]
  · have hmark : mark.isPlain s.quantity.letter = false := by
      simp [Glyph.isPlain, hmc, separator_ne_letter]
    have hrun : letterRun first.codePoint (more ++ mark :: second :: (places ++ behind)) =
        (more.length, mark :: second :: (places ++ behind)) := by
      rw [hfirst]
      apply letterRun_append hmore
      intro g hg
      rw [← Option.some.inj hg]
      exact hmark
    have hfrac : fraction? first.codePoint (mark :: second :: (places ++ behind)) =
        some (s.separator, places.length, behind) := by
      have hsecond := hletters second List.mem_cons_self
      rw [hfirst, fraction?, hmc, Separator.ofSymbol?_symbol]
      simp only [hmp, hsecond, and_self, if_true]
      rw [letterRun_append (fun g hg => hletters g (List.mem_cons_of_mem _ hg)) hhead]
    have hnone : fraction? first.codePoint behind = none := by
      rw [hfirst]; exact fraction?_eq_none hb
    rw [List.cons_append, List.append_assoc, List.cons_append, List.cons_append,
      (Step.fractional hres hq (by rw [hrun, hfrac]) hnone).group_eq, hrun,
      show more.length = s.integerDigits - 1 by omega,
      show places.length = s.fractionDigits - 1 by omega,
      ← Specifier.eq_fractional (by omega)]

/-- Glyphs of a literal are grouped to it if a reserved glyph follows, or none. -/
theorem group_text {gs behind : List Glyph} {t : Text} (h : Glyph.StandFor gs (.literal t))
    (ht : t ≠ []) (hb : ∀ g, behind.head? = some g → g.isReserved = true) :
    ∃ position, group (gs ++ behind) = (⟨.literal t, position⟩ :: ·) <$> group behind := by
  obtain ⟨hm, hr⟩ := h
  cases gs with
  | nil => exact absurd hm.symm ht
  | cons g gs =>
    refine ⟨g.position, ?_⟩
    rw [List.cons_append, (Step.literal (hr g List.mem_cons_self)).group_eq,
      literalRun_append (fun g' hg' => hr g' (List.mem_cons_of_mem _ hg')) hb]
    rw [← show g.codePoint :: gs.map Glyph.codePoint = t from hm]

/-- The glyph of any other symbol is grouped to it. -/
theorem group_mark {gs behind : List Glyph} {symbol : Symbol} (h : Glyph.StandFor gs symbol)
    (hf : ∀ s, symbol ≠ .field s) (ht : ∀ t, symbol ≠ .literal t) :
    ∃ position, group (gs ++ behind) = (⟨symbol, position⟩ :: ·) <$> group behind := by
  have key : ∀ c, symbol.text = [c] → isReserved c = true → Quantity.ofLetter? c = none →
      symbolOf c = symbol →
      ∃ position, group (gs ++ behind) = (⟨symbol, position⟩ :: ·) <$> group behind := by
    intro c hc hres hq hsym
    have hm := h.1
    rw [hc] at hm
    obtain ⟨g, rest, rfl, rfl, hnil⟩ := List.map_eq_cons_iff.1 hm
    obtain rfl := List.map_eq_nil_iff.1 hnil
    have hp' : g.plain = true := h.plain ht g List.mem_cons_self
    exact ⟨g.position, by
      rw [List.singleton_append, (Step.mark (by simp [Glyph.isReserved, hp', hres]) hq).group_eq,
        hsym]⟩
  cases symbol with
  | field s => exact absurd rfl (hf s)
  | literal t => exact absurd rfl (ht t)
  | sign => exact key '+' rfl rfl rfl rfl
  | hemisphere kind => cases kind <;> exact key _ rfl rfl rfl rfl
  | optionalStart => exact key '[' rfl rfl rfl rfl
  | optionalEnd => exact key ']' rfl rfl rfl rfl

end Token

/-! ## Reading a spelling -/

theorem Symbol.mem_specifiers {symbols : List Symbol} {s : Specifier} :
    s ∈ specifiers symbols ↔ .field s ∈ symbols := by
  unfold specifiers
  rw [List.mem_filterMap]
  constructor
  · rintro ⟨symbol, hm, hs⟩
    cases symbol with
    | field s' => cases hs; exact hm
    | _ => cases hs
  · exact fun h => ⟨_, h, rfl⟩

/-- Symbols that can be told apart again when they are spelled one behind the other: literals do
not touch, and no quantity has two fields. -/
structure Symbol.Distinct (symbols : List Symbol) : Prop where
  separated : Separated symbols
  quantities : (specifiers symbols).Pairwise fun a b => a.quantity ≠ b.quantity

theorem Symbol.Distinct.tail {symbol : Symbol} {rest : List Symbol}
    (h : Distinct (symbol :: rest)) : Distinct rest :=
  ⟨h.separated.2, h.quantities.sublist ((List.sublist_cons_self symbol rest).filterMap _)⟩

theorem Specifier.spelling_ne_nil (s : Specifier) : s.spelling ≠ [] := by
  have := s.integerDigits_pos
  intro h
  have := congrArg List.length h
  rw [spelling, spelledWith, List.length_append, List.length_replicate, List.length_nil] at this
  omega

theorem Symbol.text_ne_nil {symbol : Symbol} (h : symbol ≠ .literal []) : symbol.text ≠ [] := by
  cases symbol with
  | field s => exact s.spelling_ne_nil
  | literal t => exact fun ht => h (congrArg Symbol.literal ht)
  | _ => exact List.cons_ne_nil _ _

theorem Symbol.spelling_eq_text {symbol : Symbol} (h : ∀ t, symbol ≠ .literal t) :
    symbol.spelling = symbol.text := by
  cases symbol with
  | literal t => exact absurd rfl (h t)
  | _ => rfl

/-- The first character of a symbol that is no literal is no quote. -/
theorem Symbol.head?_spelling_ne_quote {symbol : Symbol} (h : ∀ t, symbol ≠ .literal t)
    (rest : Text) : (symbol.spelling ++ rest).head? ≠ some (.char '\'') := by
  obtain ⟨c, more, hc⟩ := List.exists_cons_of_ne_nil (text_ne_nil (h []))
  rw [spelling_eq_text h, hc]
  exact fun hq => quote_notMem_text h c (by rw [hc]; exact List.mem_cons_self) (Option.some.inj hq)

namespace Glyph.StandFor

/-- A field letter is plain only in glyphs of a field with that letter. -/
theorem isPlain_eq_false {gs : List Glyph} {symbol : Symbol} (h : StandFor gs symbol)
    {q : Quantity} (hq : ∀ s, symbol = .field s → s.quantity ≠ q) :
    ∀ g ∈ gs, g.isPlain q.letter = false := by
  intro g hg
  have hmem : g.codePoint ∈ symbol.text := h.1 ▸ List.mem_map_of_mem hg
  have of_ne : g.codePoint ≠ q.letter → g.isPlain q.letter = false := fun hne => by
    simp [Glyph.isPlain, hne]
  cases symbol with
  -- a letter in a literal stands in quotes, so it is not plain
  | literal t =>
    have hr := h.2 g hg
    rw [← Bool.not_eq_true]
    intro hp
    simp only [Glyph.isPlain, Bool.and_eq_true, beq_iff_eq] at hp
    simp [Glyph.isReserved, hp.1, hp.2, isReserved_letter] at hr
  | field s =>
    apply of_ne
    rcases Specifier.mem_spelling hmem with hc | hc
    · rw [hc]
      intro he
      have := congrArg Quantity.ofLetter? he
      rw [Quantity.ofLetter?_letter, Quantity.ofLetter?_letter] at this
      exact hq s rfl (Option.some.inj this)
    · rw [hc]; exact separator_ne_letter _ _
  | hemisphere kind =>
    apply of_ne
    rw [List.mem_singleton.1 hmem]
    cases kind <;> cases q <;> decide
  | _ =>
    apply of_ne
    rw [List.mem_singleton.1 hmem]
    cases q <;> decide

/-- The first glyph of a symbol that is no literal is reserved. -/
theorem head?_isReserved {gs : List Glyph} {symbol : Symbol} (h : StandFor gs symbol)
    (hl : ∀ t, symbol ≠ .literal t) {g : Glyph} (hg : gs.head? = some g) : g.isReserved = true := by
  have hp : g.plain = true := h.plain hl g (List.mem_of_head? hg)
  have hmem : g.codePoint ∈ symbol.text := h.1 ▸ List.mem_map_of_mem (List.mem_of_head? hg)
  cases symbol with
  | literal t => exact absurd rfl (hl t)
  | field s =>
    obtain ⟨first, more, tail, rfl, -, hres, -⟩ := h.field_shape
    rw [← Option.some.inj hg]
    exact hres
  | hemisphere kind =>
    rw [Glyph.isReserved, hp, List.mem_singleton.1 hmem]
    cases kind <;> rfl
  | _ =>
    rw [Glyph.isReserved, hp, List.mem_singleton.1 hmem]
    rfl

end Glyph.StandFor

/-- Symbols that can be told apart are read back from their spelling. The glyphs of the rest hold
no letter of a field in front, and start reserved behind a literal: this is what the symbol in
front needs to end where it should. -/
theorem scan_group_spelling (symbols : List Symbol) (h : Symbol.Distinct symbols) (position : Nat) :
    ∃ gs tokens, Glyph.scan position none (symbols.flatMap Symbol.spelling) = (gs, none) ∧
      Token.group gs = .ok tokens ∧ tokens.map Token.symbol = symbols ∧
      (∀ q : Quantity, (∀ s ∈ Symbol.specifiers symbols, s.quantity ≠ q) →
        ∀ g ∈ gs, g.isPlain q.letter = false) ∧
      ((∀ t, symbols.head? ≠ some (.literal t)) →
        ∀ g, gs.head? = some g → g.isReserved = true) := by
  induction symbols generalizing position with
  | nil => exact ⟨[], [], rfl, by rw [Token.group], rfl, by simp, by simp⟩
  | cons symbol rest ih =>
    have hquote : ∀ t, symbol = .literal t →
        (rest.flatMap Symbol.spelling).head? ≠ some (.char '\'') := by
      intro t ht
      cases rest with
      | nil => simp
      | cons next more =>
        rw [List.flatMap_cons]
        refine Symbol.head?_spelling_ne_quote (fun u hu => ?_) _
        exact (h.separated.1 t ht).2 u (by rw [hu]; rfl)
    -- the symbol is scanned first, then the rest from where its glyphs end
    obtain ⟨gs, next, hscan, hstand⟩ := Glyph.scan_spelling symbol position hquote
    obtain ⟨behind, tokens, hrest, hgroup, hmap, hletter, hfirst⟩ := ih h.tail next
    have hne : gs ≠ [] := by
      rintro rfl
      refine Symbol.text_ne_nil (fun ht => ?_) hstand.1.symm
      exact (h.separated.1 [] ht).1 rfl
    obtain ⟨p, hp⟩ :
        ∃ p, Token.group (gs ++ behind) = (⟨symbol, p⟩ :: ·) <$> Token.group behind := by
      cases symbol with
      | field s =>
        exact Token.group_field hstand (hletter s.quantity fun s' hs' =>
          ((List.pairwise_cons.1 h.quantities).1 s' hs').symm)
      | literal t =>
        obtain ⟨ht, hr⟩ := h.separated.1 t rfl
        exact Token.group_text hstand ht (hfirst hr)
      | _ => exact Token.group_mark hstand (fun s => by simp) (fun t => by simp)
    refine ⟨gs ++ behind, ⟨symbol, p⟩ :: tokens, ?_, ?_, by rw [List.map_cons, hmap], ?_, ?_⟩
    · rw [List.flatMap_cons, hscan, hrest]
    · rw [hp, hgroup]; rfl
    · intro q hq g hg
      have hq' : ∀ s, .field s ∈ symbol :: rest → s.quantity ≠ q :=
        fun s hs => hq s (Symbol.mem_specifiers.2 hs)
      rcases List.mem_append.1 hg with hg | hg
      · exact hstand.isPlain_eq_false
          (fun s hs => hq' s (by rw [hs]; exact List.mem_cons_self)) g hg
      · exact hletter q
          (fun s hs => hq' s (List.mem_cons_of_mem _ (Symbol.mem_specifiers.1 hs))) g hg
    · intro hl g hg
      obtain ⟨g', more, rfl⟩ := List.exists_cons_of_ne_nil hne
      exact hstand.head?_isReserved (fun t ht => hl t (by rw [ht]; rfl)) hg

theorem tokenize_eq_ok_iff {pattern : Text} {tokens : List Token} :
    tokenize pattern = .ok tokens ↔
      ∃ gs, Glyph.scan 0 none pattern = (gs, none) ∧ Token.group gs = .ok tokens := by
  unfold tokenize
  rcases Glyph.scan 0 none pattern with ⟨gs, left⟩
  dsimp only
  constructor
  · intro h
    split at h
    · cases h
    · cases h
    · rename_i hg
      cases h
      exact ⟨gs, rfl, hg⟩
  · rintro ⟨gs', hs, hg⟩
    cases hs
    rw [hg]

/-- The tokens of a spelling are the symbols that were spelled. -/
theorem tokenize_spelling {symbols : List Symbol} (h : Symbol.Distinct symbols) :
    ∃ tokens, tokenize (symbols.flatMap Symbol.spelling) = .ok tokens ∧
      tokens.map Token.symbol = symbols := by
  obtain ⟨gs, tokens, hs, hg, hm, -⟩ := scan_group_spelling symbols h 0
  exact ⟨tokens, tokenize_eq_ok_iff.2 ⟨gs, hs, hg⟩, hm⟩

/-! ## Escaped texts -/

/-- A text that is escaped is one literal, and no token if it is empty: the quotes of the text pair
up, and the ones around it are those that are left over. -/
theorem tokenize_escape (v : Text) : ∃ tokens, tokenize (escape v) = .ok tokens ∧
    tokens.map Token.symbol = if v = [] then [] else [.literal v] := by
  by_cases hv : v = []
  · subst hv
    have hd : Symbol.Distinct [] := ⟨trivial, List.Pairwise.nil⟩
    obtain ⟨tokens, ht, hm⟩ := tokenize_spelling hd
    exact ⟨tokens, ht, hm⟩
  · have hd : Symbol.Distinct [.literal v] :=
      ⟨⟨by rintro t ⟨⟩; exact ⟨hv, nofun⟩, trivial⟩, List.Pairwise.nil⟩
    obtain ⟨tokens, ht, hm⟩ := tokenize_spelling hd
    rw [List.flatMap_singleton] at ht
    exact ⟨tokens, ht, by rw [hm, if_neg hv]⟩

/-- Escaping is exact: any text, whatever quotes, brackets and letters of fields it holds, is read
back from what it is escaped to, as no token if it is empty and as one literal otherwise. So no two
texts are escaped to the same. -/
theorem escape_exact :
    (∀ v, ∃ tokens, tokenize (escape v) = .ok tokens ∧ (v = [] → tokens = []) ∧
      (v ≠ [] → ∃ position, tokens = [⟨.literal v, position⟩])) ∧
    Function.Injective escape := by
  refine ⟨fun v => ?_, fun v w hvw => ?_⟩
  · obtain ⟨tokens, ht, hm⟩ := tokenize_escape v
    refine ⟨tokens, ht, fun hv => ?_, fun hv => ?_⟩
    · rw [if_pos hv] at hm
      exact List.map_eq_nil_iff.1 hm
    · rw [if_neg hv] at hm
      obtain ⟨⟨_, position⟩, _, rfl, rfl, hnil⟩ := List.map_eq_cons_iff.1 hm
      obtain rfl := List.map_eq_nil_iff.1 hnil
      exact ⟨position, rfl⟩
  · -- the text is what the tokens of the escaped text hold
    have htext (u : Text) :
        (if u = [] then [] else [Symbol.literal u]).flatMap Symbol.text = u := by
      split
      · rename_i hu; exact hu.symm
      · exact List.flatMap_singleton _ _
    obtain ⟨tokens, htv, hv⟩ := tokenize_escape v
    obtain ⟨tokens', htw, hw⟩ := tokenize_escape w
    rw [hvw, htw] at htv
    obtain rfl := Except.ok.inj htv
    rw [← htext v, ← htext w, ← hv, hw]

/-- Quotes at both ends and in the middle of a text with a reserved letter. -/
example : escape (Text.lit "''D'") = Text.lit "'''''D'''" ∧
    ∃ tokens, tokenize (Text.lit "'''''D'''") = .ok tokens ∧
      tokens = [⟨.literal (Text.lit "''D'"), 0⟩] := by
  decide +kernel

/-! ## Regenerated patterns -/

/-- The symbols of a compiled pattern can be told apart. -/
theorem distinct_of_compile {pattern : Text} {body : List Node} {tokens : List Token}
    (ht : tokenize pattern = .ok tokens) (hm : symbolsOf body = tokens.map Token.symbol)
    (hv : validate (leavesOf body) = .ok ()) : Symbol.Distinct (symbolsOf body) := by
  obtain ⟨gs, -, hg⟩ := tokenize_eq_ok_iff.1 ht
  refine ⟨hm ▸ Token.separated_group hg, ?_⟩
  rw [← specifiers_leavesOf]
  refine (validate_eq_ok_iff.1 hv).1.imp fun {a b} hab hq => ?_
  rw [← Bool.not_eq_true] at hab
  exact hab (sharesUnit_iff.2 (by rw [hq]; exact ⟨rfl, rfl⟩))

/-- A regenerated pattern has the tokens of the pattern, and compiles to its tree. -/
theorem compile_spellingOf {pattern : Text} {body : List Node} (h : compile pattern = .ok body) :
    (∃ tokens tokens', tokenize pattern = .ok tokens ∧
      tokenize (spellingOf body) = .ok tokens' ∧
      tokens'.map Token.symbol = tokens.map Token.symbol) ∧
    compile (spellingOf body) = .ok body := by
  obtain ⟨tokens, ht, ha, hv⟩ := compile_eq_ok_iff.1 h
  have hm := symbolsOf_of_assemble ha
  obtain ⟨tokens', ht', hm'⟩ := tokenize_spelling (distinct_of_compile ht hm hv)
  rw [← spellingOf_eq] at ht'
  have hmap : tokens'.map Token.symbol = tokens.map Token.symbol := hm'.trans hm
  refine ⟨⟨tokens, tokens', ht, ht', hmap⟩, compile_eq_ok_iff.2 ⟨tokens', ht', ?_, hv⟩⟩
  rw [specifiersOf_eq, hmap, ← specifiersOf_eq]
  exact assemble_congr rfl hmap.symm ha

/-- The regenerated pattern is faithful: it has the tokens of the pattern, it compiles to the same
tree, it regenerates itself, and formatters have equal trees exactly if they regenerate the same
pattern. -/
theorem toPattern_faithful {pattern : Text} {f : Formatter}
    (h : Formatter.ofPattern pattern = .ok f) :
    (∃ tokens tokens', tokenize pattern = .ok tokens ∧ tokenize f.toPattern = .ok tokens' ∧
      tokens'.map (fun t => (t.symbol, t.text)) = tokens.map (fun t => (t.symbol, t.text))) ∧
    (∃ g, Formatter.ofPattern f.toPattern = .ok g ∧ g.body = f.body ∧
      g.toPattern = f.toPattern) ∧
    ∀ {other : Text} {g : Formatter}, Formatter.ofPattern other = .ok g →
      (f.body = g.body ↔ f.toPattern = g.toPattern) := by
  obtain ⟨hc, -⟩ := ofPattern_eq_ok_iff.1 h
  obtain ⟨⟨tokens, tokens', ht, ht', hm⟩, hc'⟩ := compile_spellingOf hc
  refine ⟨⟨tokens, tokens', ht, ht', ?_⟩,
    ⟨⟨f.toPattern, f.body⟩, ofPattern_eq_ok_iff.2 ⟨hc', rfl⟩, rfl, rfl⟩, ?_⟩
  · have : (fun t : Token => (t.symbol, t.text)) = (fun s => (s, s.text)) ∘ Token.symbol := rfl
    rw [this, ← List.map_map, ← List.map_map, hm]
  · intro other g hg
    obtain ⟨hcg, -⟩ := ofPattern_eq_ok_iff.1 hg
    constructor
    · intro hb
      exact congrArg spellingOf hb
    · intro hp
      have := (compile_spellingOf hcg).2
      rw [show spellingOf g.body = spellingOf f.body from hp.symm, hc'] at this
      exact Except.ok.inj this

/-- Two patterns that quote the same literal in two ways regenerate to one. -/
theorem toPattern_faithful_quotes :
    ∃ f g, Formatter.ofPattern (Text.lit "D'.''X'[+d]") = .ok f ∧
      Formatter.ofPattern (Text.lit "D.'''X'[+d]") = .ok g ∧ f.body = g.body ∧
      ∃ k, Formatter.ofPattern f.toPattern = .ok k ∧ k.body = f.body ∧
        k.toPattern = f.toPattern := by
  obtain ⟨f, hf, hfp⟩ : ∃ f, Formatter.ofPattern (Text.lit "D'.''X'[+d]") = .ok f ∧
    f.toPattern = Text.lit "D'.''X'[+d]" := by decide +kernel
  obtain ⟨g, hg, hgp⟩ : ∃ g, Formatter.ofPattern (Text.lit "D.'''X'[+d]") = .ok g ∧
    g.toPattern = Text.lit "D'.''X'[+d]" := by decide +kernel
  have h := toPattern_faithful hf
  exact ⟨f, g, hf, hg, (h.2.2 hg).2 (hfp.trans hgp.symm), h.2.1⟩

end GeoPattern
