/-
Quotes by their parity. Scanning a pattern pairs up quotes that touch and keeps track of the quote
that is open; seen from outside, text stands in quotes exactly if an odd number of quotes stands in
front of it. A word without quotes is plain among the glyphs where it stands outside of quotes in
the pattern.
Main statements: `left_eq_none_iff`, `exists_plain_iff`.
-/
import GeoPattern.Proofs.Pattern.Spelling
import Mathlib.Algebra.Group.Nat.Even

namespace GeoPattern

/-- How many quotes a text has. -/
def quoteCount (t : Text) : Nat := t.count (.char '\'')

theorem quoteCount_quote (t : Text) : quoteCount (.char '\'' :: t) = quoteCount t + 1 :=
  List.count_cons_self

theorem quoteCount_cons {c : CodePoint} (hc : c ≠ .char '\'') (t : Text) :
    quoteCount (c :: t) = quoteCount t :=
  List.count_cons_of_ne hc

/-! ## Induction -/

section Induction

variable {motive : Text → Prop} (nil : motive [])
  (pair : ∀ rest, motive rest → motive (.char '\'' :: .char '\'' :: rest))
  (lone : ∀ rest : Text, rest.head? ≠ some (.char '\'') → motive rest →
    motive (.char '\'' :: rest))
  (other : ∀ c rest, c ≠ .char '\'' → motive rest → motive (c :: rest))

include nil pair lone other

/-- A text is taken apart from the left as it is scanned: a pair of quotes at once, a quote that no
quote follows, or any other character. -/
@[elab_as_elim]
theorem quote_induction : ∀ t : Text, motive t
  | [] => nil
  | [c] => by
    by_cases hc : c = .char '\''
    · exact hc ▸ lone [] nofun nil
    · exact other c [] hc nil
  | c :: d :: rest => by
    by_cases hc : c = .char '\''
    · by_cases hd : d = .char '\''
      · exact hc ▸ hd ▸ pair rest (quote_induction rest)
      · exact hc ▸ lone (d :: rest) (fun h => hd (Option.some.inj h)) (quote_induction (d :: rest))
    · exact other c (d :: rest) hc (quote_induction (d :: rest))

end Induction

namespace Glyph

/-- A quote that no quote follows opens quoted text or closes it. -/
theorem scan_lone {rest : Text} (h : rest.head? ≠ some (.char '\'')) (position : Nat)
    (opened : Option Nat) :
    ∃ opened', scan position opened (.char '\'' :: rest) = scan (position + 1) opened' rest ∧
      (opened' = none ↔ opened ≠ none) := by
  cases opened with
  | none => exact ⟨_, scan_open h position, by simp⟩
  | some first => exact ⟨_, scan_close h position first, by simp⟩

/-- No quote stays open exactly if the quotes pair up, together with the one that is open. -/
theorem left_eq_none_iff (t : Text) (position : Nat) (opened : Option Nat) :
    (scan position opened t).2 = none ↔ (Even (quoteCount t) ↔ opened = none) := by
  induction t using quote_induction generalizing position opened with
  | nil => simp [scan, quoteCount]
  | pair rest ih =>
    rw [scan_quote_quote, ih, quoteCount_quote, quoteCount_quote, Nat.even_add_one,
      Nat.even_add_one, not_not]
  | lone rest h ih =>
    obtain ⟨opened', hs, ho⟩ := scan_lone h position opened
    rw [hs, ih, ho, quoteCount_quote, Nat.even_add_one]
    by_cases hopened : opened = none <;> simp [hopened]
  | other c rest hc ih => rw [scan_cons hc, ih, quoteCount_cons hc]

/-- A pattern is scanned piece by piece; a piece must not end between two quotes. -/
theorem scan_append (t : Text) {rest : Text} (h : rest.head? ≠ some (.char '\'')) (position : Nat)
    (opened : Option Nat) :
    scan position opened (t ++ rest) =
      ((scan position opened t).1 ++ (scan (position + t.length) (scan position opened t).2 rest).1,
        (scan (position + t.length) (scan position opened t).2 rest).2) := by
  induction t using quote_induction generalizing position opened with
  | nil => rfl
  | pair t ih =>
    have hlen : position + 2 + t.length = position + (t.length + 1 + 1) := by omega
    rw [List.cons_append, List.cons_append, scan_quote_quote, scan_quote_quote, ih, hlen]
    rfl
  | lone t ht ih =>
    have htr : (t ++ rest).head? ≠ some (.char '\'') := by
      cases t with
      | nil => exact h
      | cons c t => exact ht
    have hlen : position + 1 + t.length = position + (t.length + 1) := by omega
    cases opened with
    | none => rw [List.cons_append, scan_open htr, scan_open ht, ih, hlen, List.length_cons]
    | some first => rw [List.cons_append, scan_close htr, scan_close ht, ih, hlen, List.length_cons]
  | other c t hc ih =>
    have hlen : position + 1 + t.length = position + (t.length + 1) := by omega
    rw [List.cons_append, scan_cons hc, scan_cons hc, ih, hlen]
    rfl

/-! ## Plain words -/

/-- The first glyph inside of quotes is not plain. -/
theorem plain_head?_scan_some {t : Text} (h : t.head? ≠ some (.char '\'')) (position first : Nat)
    {g : Glyph} (hg : (scan position (some first) t).1.head? = some g) : g.plain = false := by
  cases t with
  | nil => cases hg
  | cons c t =>
    rw [scan_cons fun hc => h (by rw [hc]; rfl)] at hg
    rw [← Option.some.inj hg]
    rfl

/-- Plain glyphs at the front are the characters at the front. -/
theorem exists_eq_of_plain_front (t : Text) {position : Nat} {ws after : List Glyph}
    (h : (scan position none t).1 = ws ++ after) (hp : ∀ g ∈ ws, g.plain = true) :
    ∃ back, t = ws.map codePoint ++ back := by
  induction t using quote_induction generalizing position ws with
  | nil =>
    obtain rfl : ws = [] := (List.append_eq_nil_iff.1 h.symm).1
    exact ⟨[], rfl⟩
  | pair t ih =>
    cases ws with
    | nil => exact ⟨_, rfl⟩
    | cons g ws =>
      rw [scan_quote_quote] at h
      have := hp g List.mem_cons_self
      rw [← (List.cons.inj h).1] at this
      cases this
  | lone t ht ih =>
    cases ws with
    | nil => exact ⟨_, rfl⟩
    | cons g ws =>
      rw [scan_open ht] at h
      have := plain_head?_scan_some ht (position + 1) position (g := g) (by rw [h]; rfl)
      rw [hp g List.mem_cons_self] at this
      cases this
  | other c t hc ih =>
    cases ws with
    | nil => exact ⟨_, rfl⟩
    | cons g ws =>
      rw [scan_cons hc] at h
      obtain ⟨hg, hrest⟩ := List.cons.inj h
      obtain ⟨back, rfl⟩ := ih hrest fun g hg => hp g (List.mem_cons_of_mem _ hg)
      exact ⟨back, by rw [← hg]; rfl⟩

/-- A plain glyph stands outside of quotes, and the rest of the pattern is scanned from there. -/
theorem exists_scan_eq_cons (t : Text) {position : Nat} {opened : Option Nat}
    {before rest : List Glyph} {g : Glyph} (h : (scan position opened t).1 = before ++ g :: rest)
    (hg : g.plain = true) :
    ∃ front back, t = front ++ back ∧ (Even (quoteCount front) ↔ opened = none) ∧
      g.position = position + front.length ∧ (scan g.position none back).1 = g :: rest := by
  induction t using quote_induction generalizing position opened before with
  | nil => exact absurd h.symm (by simp [scan])
  | pair t ih =>
    rw [scan_quote_quote] at h
    cases before with
    | nil =>
      rw [← (List.cons.inj h).1] at hg
      cases hg
    | cons b before =>
      obtain ⟨front, back, rfl, he, hp, hs⟩ := ih (List.cons.inj h).2
      refine ⟨.char '\'' :: .char '\'' :: front, back, rfl, ?_, ?_, hs⟩
      · rw [quoteCount_quote, quoteCount_quote, Nat.even_add_one, Nat.even_add_one, not_not, he]
      · rw [hp, List.length_cons, List.length_cons]
        omega
  | lone t ht ih =>
    obtain ⟨opened', hs, ho⟩ := scan_lone ht position opened
    rw [hs] at h
    obtain ⟨front, back, rfl, he, hp, hs⟩ := ih h
    refine ⟨.char '\'' :: front, back, rfl, ?_, ?_, hs⟩
    · rw [quoteCount_quote, Nat.even_add_one, he, ho, not_not]
    · rw [hp, List.length_cons]
      omega
  | other c t hc ih =>
    have hscan := h
    rw [scan_cons hc] at h
    cases before with
    | nil =>
      -- the first glyph is plain, so no quote is open in front of it
      have hg' := (List.cons.inj h).1
      obtain rfl : opened = none := by
        rw [← hg'] at hg
        exact Option.isNone_iff_eq_none.1 hg
      have hp : g.position = position := by rw [← hg']
      exact ⟨[], c :: t, rfl, by simp [quoteCount], hp, hp ▸ hscan⟩
    | cons b before =>
      obtain ⟨front, back, rfl, he, hp, hs⟩ := ih (List.cons.inj h).2
      refine ⟨c :: front, back, rfl, by rw [quoteCount_cons hc, he], ?_, hs⟩
      rw [hp, List.length_cons]
      omega

/-- Plain glyphs that stand together are characters that stand together outside of quotes. -/
theorem exists_eq_of_plain (t : Text) {position : Nat} {opened : Option Nat}
    {before ws after : List Glyph} (h : (scan position opened t).1 = before ++ ws ++ after)
    (hne : ws ≠ []) (hp : ∀ g ∈ ws, g.plain = true) :
    ∃ front back, t = front ++ ws.map codePoint ++ back ∧
      (Even (quoteCount front) ↔ opened = none) := by
  obtain ⟨g, more, rfl⟩ := List.exists_cons_of_ne_nil hne
  rw [List.append_assoc, List.cons_append] at h
  obtain ⟨front, back, rfl, he, -, hs⟩ := exists_scan_eq_cons t h (hp g List.mem_cons_self)
  obtain ⟨back, rfl⟩ := exists_eq_of_plain_front back hs hp
  exact ⟨front, back, by rw [List.append_assoc], he⟩

/-- A word without quotes is plain somewhere among the glyphs of a pattern exactly if it stands
somewhere behind an even number of quotes. -/
theorem exists_plain_iff {w : Text} (hne : w ≠ []) (hw : ∀ c ∈ w, c ≠ .char '\'')
    (pattern : Text) (position : Nat) :
    (∃ before ws after, (scan position none pattern).1 = before ++ ws ++ after ∧
        (∀ g ∈ ws, g.plain = true) ∧ ws.map codePoint = w) ↔
      ∃ front back, pattern = front ++ w ++ back ∧ Even (quoteCount front) := by
  constructor
  · rintro ⟨before, ws, after, h, hp, rfl⟩
    obtain ⟨front, back, hb, he⟩ := exists_eq_of_plain pattern h (fun h => hne (by rw [h]; rfl)) hp
    exact ⟨front, back, hb, he.2 rfl⟩
  · rintro ⟨front, back, rfl, he⟩
    have hhead : (w ++ back).head? ≠ some (.char '\'') := by
      obtain ⟨c, w, rfl⟩ := List.exists_cons_of_ne_nil hne
      exact fun h => hw c List.mem_cons_self (Option.some.inj h)
    have hs := scan_append front hhead position none
    have hleft : (scan position none front).2 = none := (left_eq_none_iff _ _ _).2 (by simp [he])
    obtain ⟨ws, next, hws, hm, hp⟩ := scan_plain w hw (position + front.length) back
    refine ⟨(scan position none front).1, ws, (scan next none back).1, ?_, hp, hm⟩
    rw [List.append_assoc, hs, hleft, hws, List.append_assoc]

end Glyph

end GeoPattern
