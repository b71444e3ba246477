/-
Specifiers, spelled and read back. A text is read as a specifier exactly if it is the spelling of
one, which is exactly if the text as a pattern is that one field and nothing else. So the fields of
a pattern, whatever stands around them, are always read as specifiers.
Main statements: `Specifier.ofText_eq_ok_iff`, `tokenize_field`, `ofText_iff_tokenize`.
-/
import GeoPattern.Proofs.Pattern.Tokens

namespace GeoPattern

namespace Specifier

variable {letter : CodePoint} {t integer : Text}

/-! ## Separators -/

/-- A text that is split at its separator is put together again from its parts. -/
theorem eq_of_splitAtSeparator {parts : Text × Option (Separator × Text)}
    (h : splitAtSeparator t = parts) : t = parts.1 ++
      match parts.2 with
      | none => []
      | some (separator, fraction) => separator.symbol :: fraction := by
  subst h
  induction t with
  | nil => rfl
  | cons c rest ih =>
    rw [splitAtSeparator]
    rcases hc : Separator.ofSymbol? c with - | separator
    · exact congrArg (c :: ·) ih
    · exact congrArg (· :: rest) (Separator.symbol_of_ofSymbol? hc).symm

/-- Characters that are no separators are the integer part, and the whole if nothing follows. -/
theorem splitAtSeparator_append (h : ∀ c ∈ integer, Separator.ofSymbol? c = none) (rest : Text) :
    splitAtSeparator (integer ++ rest) =
      (integer ++ (splitAtSeparator rest).1, (splitAtSeparator rest).2) := by
  induction integer with
  | nil => rfl
  | cons c integer ih =>
    rw [List.cons_append, splitAtSeparator, h c List.mem_cons_self,
      ih fun d hd => h d (List.mem_cons_of_mem _ hd)]
    rfl

theorem splitAtSeparator_symbol (separator : Separator) (fraction : Text) :
    splitAtSeparator (separator.symbol :: fraction) = ([], some (separator, fraction)) := by
  rw [splitAtSeparator, Separator.ofSymbol?_symbol]

/-! ## Letters -/

/-- No letter of a quantity is a separator. -/
theorem ofSymbol?_letters {q : Quantity} {n : ℕ} :
    ∀ c ∈ List.replicate n q.letter, Separator.ofSymbol? c = none := by
  intro c hc
  rw [List.eq_of_mem_replicate hc]
  exact Token.ofSymbol?_eq_none_of_letter (by rw [Quantity.ofLetter?_letter]; rfl)

theorem countP_letters (q : Quantity) (n : ℕ) :
    (List.replicate n q.letter).countP isSeparator = 0 := by
  refine List.countP_eq_zero.2 fun c hc => ?_
  simp [isSeparator, ofSymbol?_letters c hc]

/-- Where no character is foreign, only the letter stands. -/
theorem eq_letters_of_find? (h : t.find? (· != letter) = none) :
    t = List.replicate t.length letter := by
  refine List.eq_replicate_iff.2 ⟨rfl, fun c hc => ?_⟩
  simpa using List.find?_eq_none.1 h c hc

/-! ## Spellings -/

theorem ofText_whole (q : Quantity) (more : ℕ) :
    ofText (whole q more).spelling = .ok (whole q more) := by
  have hsplit := splitAtSeparator_append (ofSymbol?_letters (q := q) (n := more)) []
  rw [List.append_nil] at hsplit
  rw [spelling_whole, List.replicate_succ, ofText, Quantity.ofLetter?_letter]
  dsimp only
  rw [countP_letters, if_neg (by omega), hsplit]
  simp [splitAtSeparator]

theorem ofText_fractional (q : Quantity) (more : ℕ) (separator : Separator) (places : ℕ) :
    ofText (fractional q more separator places).spelling =
      .ok (fractional q more separator places) := by
  have hcount : (List.replicate more q.letter ++ separator.symbol ::
      List.replicate (places + 1) q.letter).countP isSeparator = 1 := by
    rw [List.countP_append, List.countP_cons, countP_letters, countP_letters]
    simp [isSeparator]
  have hsplit := splitAtSeparator_append (ofSymbol?_letters (q := q) (n := more))
    (separator.symbol :: List.replicate (places + 1) q.letter)
  rw [splitAtSeparator_symbol, List.append_nil, List.replicate_succ] at hsplit
  rw [spelling_fractional, List.replicate_succ (n := more), List.cons_append, ofText,
    Quantity.ofLetter?_letter]
  dsimp only
  rw [hcount, if_neg (by omega), List.replicate_succ, hsplit]
  simp

/-- A specifier is read from its spelling. -/
theorem ofText_spelling (s : Specifier) : ofText s.spelling = .ok s := by
  by_cases hf : s.fractionDigits = 0
  · rw [eq_whole hf, ofText_whole]
  · rw [eq_fractional hf, ofText_fractional]

/-- A text is read as a specifier exactly if it is its spelling. -/
theorem ofText_eq_ok_iff {s : Specifier} : ofText t = .ok s ↔ t = s.spelling := by
  refine ⟨fun h => ?_, fun h => h ▸ s.ofText_spelling⟩
  -- one check after the other: only a text with no foreign character comes through
  unfold ofText at h
  split at h
  · cases h
  rename_i letter rest
  split at h
  · cases h
  rename_i quantity hq
  obtain rfl := Quantity.letter_of_ofLetter? hq
  split at h
  · cases h
  split at h
  · cases h
  · rename_i integer separator first fraction hsplit
    split at h
    · cases h
    · rename_i hfind
      cases h
      -- the letters of both parts are found in one list, at whose border the separator stood
      obtain ⟨-, hinteger, hfraction⟩ :=
        List.replicate_eq_append_iff.1 (eq_letters_of_find? hfind).symm
      rw [eq_of_splitAtSeparator hsplit, spelling_fractional, List.replicate_succ,
        ← List.length_cons, ← hfraction, List.cons_append, ← hinteger]
  · rename_i integer hsplit
    split at h
    · cases h
    · rename_i hfind
      cases h
      rw [eq_of_splitAtSeparator hsplit, spelling_whole, List.replicate_succ, List.append_nil]
      exact congrArg _ (eq_letters_of_find? hfind)

end Specifier

/-! ## Fields of patterns -/

/-- A token that is no literal is spelled in the pattern where it stands. -/
theorem prefix_drop_of_tokenize {pattern : Text} {tokens : List Token}
    (h : tokenize pattern = .ok tokens) {t : Token} (ht : t ∈ tokens)
    (hl : ∀ u, t.symbol ≠ .literal u) : t.text <+: pattern.drop t.position := by
  obtain ⟨gs, hs, hg⟩ := tokenize_eq_ok_iff.1 h
  obtain rfl : (Glyph.scan 0 none pattern).1 = gs := by rw [hs]
  exact Token.prefix_drop_of_mem hg ht hl

/-- The spelling of a specifier is a pattern with that field alone. -/
theorem tokenize_field (s : Specifier) : tokenize s.spelling = .ok [⟨.field s, 0⟩] := by
  have hd : Symbol.Distinct [.field s] := ⟨⟨nofun, trivial⟩, List.pairwise_singleton _ _⟩
  obtain ⟨tokens, ht, hm⟩ := tokenize_spelling hd
  rw [List.flatMap_singleton, show (Symbol.field s).spelling = s.spelling from rfl] at ht
  obtain ⟨⟨_, position⟩, _, rfl, rfl, hnil⟩ := List.map_eq_cons_iff.1 hm
  obtain rfl := List.map_eq_nil_iff.1 hnil
  -- the whole pattern stands where the token stands
  have hfront : s.spelling <+: s.spelling.drop position :=
    prefix_drop_of_tokenize ht List.mem_cons_self fun _ => Symbol.noConfusion
  have hlen := hfront.length_le
  have hpos := List.length_pos_iff.2 s.spelling_ne_nil
  rw [List.length_drop] at hlen
  obtain rfl : position = 0 := by omega
  exact ht

/-- The two readings of specifiers agree. A text is read as a specifier exactly if it is tokenized
to one field, which has the text for its own and stands at its front; and then it is the letter once
for every integer digit and, if there are fraction digits, the separator with the letter once for
every one of them. So the field that any token stands for is read from the text of the token, and
none is refused. -/
theorem ofText_iff_tokenize (w : Text) :
    ((∃ s, Specifier.ofText w = .ok s) ↔ ∃ t : Token, tokenize w = .ok [t] ∧
      t.symbol.isField = true ∧ t.text = w ∧ t.position = 0) ∧
    (∀ s, Specifier.ofText w = .ok s → tokenize w = .ok [⟨.field s, 0⟩] ∧
      w = List.replicate s.integerDigits s.quantity.letter ++
        if s.fractionDigits = 0 then []
        else s.separator.symbol :: List.replicate s.fractionDigits s.quantity.letter) ∧
    ∀ tokens, tokenize w = .ok tokens → ∀ t ∈ tokens, t.symbol.isField = true →
      t.text <+: w.drop t.position ∧
        ∃ s, t.symbol = .field s ∧ Specifier.ofText t.text = .ok s := by
  have hfield {t : Token} (h : t.symbol.isField = true) :
      ∃ s, t.symbol = .field s ∧ Specifier.ofText t.text = .ok s := by
    obtain ⟨symbol, position⟩ := t
    cases symbol with
    | field s => exact ⟨s, rfl, s.ofText_spelling⟩
    | _ => cases h
  refine ⟨⟨?_, ?_⟩, fun s h => ?_, fun tokens h t ht hf => ⟨?_, hfield hf⟩⟩
  · rintro ⟨s, h⟩
    obtain rfl := Specifier.ofText_eq_ok_iff.1 h
    exact ⟨_, tokenize_field s, rfl, rfl, rfl⟩
  · rintro ⟨t, -, hf, rfl, -⟩
    obtain ⟨s, -, h⟩ := hfield hf
    exact ⟨s, h⟩
  · obtain rfl := Specifier.ofText_eq_ok_iff.1 h
    exact ⟨tokenize_field s, rfl⟩
  · obtain ⟨s, hs, -⟩ := hfield hf
    refine prefix_drop_of_tokenize h ht fun u => ?_
    rw [hs]
    exact Symbol.noConfusion

/-- A separator that no letter follows is a literal of its own, and makes a specifier malformed. -/
example : Specifier.ofText (Text.lit "D.") = .error .noFraction ∧ tokenize (Text.lit "D.") =
    .ok [⟨.field (.whole .degreeOfLatitude 0), 0⟩, ⟨.literal (Text.lit "."), 1⟩] := by
  decide +kernel

end GeoPattern
