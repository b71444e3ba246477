/-
Gathering glyphs into tokens, one token at a time. What the front of a list of glyphs can be taken
for is said by `Step`; grouping goes on from step to step, and fails where a step finds a field
with a second separator.
Main statement: `group_cons_eq_ok_iff`.
-/
import GeoPattern.Pattern.Token

namespace GeoPattern

namespace Token

/-- A glyph, together with some of the glyphs behind it, is taken for a symbol; the second list is
what stands behind the symbol. -/
inductive Step (g : Glyph) (rest : List Glyph) : Symbol → List Glyph → Prop
  | mark : g.isReserved = true → Quantity.ofLetter? g.codePoint = none →
      Step g rest (symbolOf g.codePoint) rest
  | whole {quantity : Quantity} : g.isReserved = true →
      Quantity.ofLetter? g.codePoint = some quantity →
      fraction? g.codePoint (letterRun g.codePoint rest).2 = none →
      Step g rest (.field (.whole quantity (letterRun g.codePoint rest).1))
        (letterRun g.codePoint rest).2
  | fractional {quantity : Quantity} {separator : Separator} {places : Nat} {behind : List Glyph} :
      g.isReserved = true → Quantity.ofLetter? g.codePoint = some quantity →
      fraction? g.codePoint (letterRun g.codePoint rest).2 = some (separator, places, behind) →
      fraction? g.codePoint behind = none →
      Step g rest (.field (.fractional quantity (letterRun g.codePoint rest).1 separator places))
        behind
  | literal : g.isReserved = false →
      Step g rest (.literal (g.codePoint :: (literalRun rest).1)) (literalRun rest).2

variable {g : Glyph} {rest behind : List Glyph} {symbol : Symbol}

/-- Grouping takes a step and goes on behind it. -/
theorem Step.group_eq (h : Step g rest symbol behind) :
    group (g :: rest) = (⟨symbol, g.position⟩ :: ·) <$> group behind := by
  cases h with
  | mark hg hq =>
    rw [group, if_pos hg]
    simp only [hq]
  | whole hg hq hf =>
    rw [group, if_pos hg]
    simp only [hq]
    split
    · rfl
    · rename_i h; rw [hf] at h; cases h
  | fractional hg hq hf hb =>
    rw [group, if_pos hg]
    simp only [hq]
    split
    · rename_i h; rw [hf] at h; cases h
    · rename_i h
      rw [hf] at h
      cases h
      rw [hb, if_neg (by simp)]
  | literal hg => rw [group, if_neg (by simp [hg])]

/-- Where grouping takes no step, the field in front has a second separator. -/
theorem step_or_error (g : Glyph) (rest : List Glyph) :
    (∃ symbol behind, Step g rest symbol behind) ∨
      group (g :: rest) = .error (.severalSeparators g.position) := by
  rcases hg : g.isReserved with - | -
  · exact .inl ⟨_, _, .literal hg⟩
  rcases hq : Quantity.ofLetter? g.codePoint with - | quantity
  · exact .inl ⟨_, _, .mark hg hq⟩
  rcases hf : fraction? g.codePoint (letterRun g.codePoint rest).2 with - | ⟨separator, places, behind⟩
  · exact .inl ⟨_, _, .whole hg hq hf⟩
  rcases hb : fraction? g.codePoint behind with - | again
  · exact .inl ⟨_, _, .fractional hg hq hf hb⟩
  · refine .inr ?_
    rw [group, if_pos hg]
    simp only [hq]
    split
    · rename_i h; rw [hf] at h; cases h
    · rename_i h
      rw [hf] at h
      cases h
      rw [hb, if_pos (by simp)]

theorem group_cons_eq_ok_iff {tokens : List Token} :
    group (g :: rest) = .ok tokens ↔ ∃ symbol behind more, Step g rest symbol behind ∧
      group behind = .ok more ∧ tokens = ⟨symbol, g.position⟩ :: more := by
  constructor
  · intro h
    rcases step_or_error g rest with ⟨symbol, behind, hs⟩ | he
    · rw [hs.group_eq] at h
      rcases hb : group behind with e | more
      · rw [hb] at h; cases h
      · rw [hb] at h; cases h
        exact ⟨symbol, behind, more, hs, hb, rfl⟩
    · rw [he] at h; cases h
  · rintro ⟨symbol, behind, more, hs, hb, rfl⟩
    rw [hs.group_eq, hb]
    rfl

/-- A step leaves fewer glyphs. -/
theorem Step.length_le (h : Step g rest symbol behind) : behind.length ≤ rest.length := by
  cases h with
  | mark => exact Nat.le_refl _
  | whole =>
    have := length_letterRun g.codePoint rest
    omega
  | fractional _ _ hf =>
    have := length_letterRun g.codePoint rest
    have := length_of_fraction? hf
    omega
  | literal =>
    have := length_literalRun rest
    omega

/-- Glyphs that are grouped are taken apart from step to step. -/
@[elab_as_elim]
theorem group_induction {motive : List Glyph → List Token → Prop} (nil : motive [] [])
    (step : ∀ {g : Glyph} {rest behind : List Glyph} {symbol : Symbol} {more : List Token},
      Step g rest symbol behind → group behind = .ok more → motive behind more →
        motive (g :: rest) (⟨symbol, g.position⟩ :: more))
    {gs : List Glyph} {tokens : List Token} (h : group gs = .ok tokens) : motive gs tokens := by
  induction hn : gs.length using Nat.strongRecOn generalizing gs tokens with
  | _ n ih =>
    cases gs with
    | nil => rw [group] at h; cases h; exact nil
    | cons g rest =>
      obtain ⟨symbol, behind, more, hs, hb, rfl⟩ := group_cons_eq_ok_iff.1 h
      have hlen := hs.length_le
      rw [List.length_cons] at hn
      exact step hs hb (ih behind.length (by omega) hb rfl)

/-- The glyphs of a literal are those in front that are not reserved. -/
theorem literalRun_spec (gs : List Glyph) :
    ∃ word, gs = word ++ (literalRun gs).2 ∧ word.map Glyph.codePoint = (literalRun gs).1 ∧
      ∀ g ∈ word, g.isReserved = false := by
  induction gs with
  | nil => exact ⟨[], rfl, rfl, nofun⟩
  | cons g rest ih =>
    rw [literalRun]
    split
    · exact ⟨[], rfl, rfl, nofun⟩
    · rename_i hg
      obtain ⟨word, he, hm, hr⟩ := ih
      refine ⟨g :: word, congrArg (g :: ·) he, congrArg (g.codePoint :: ·) hm, fun g' hg' => ?_⟩
      rcases List.mem_cons.1 hg' with rfl | hg'
      · simpa using hg
      · exact hr g' hg'

/-- Behind a run of literal glyphs there is a reserved one, or none. -/
theorem head?_literalRun (gs : List Glyph) :
    ∀ g, (literalRun gs).2.head? = some g → g.isReserved = true := by
  induction gs with
  | nil => simp [literalRun]
  | cons g rest ih =>
    rw [literalRun]
    split
    · rename_i hg
      intro g' hg'
      rw [← Option.some.inj hg']
      exact hg
    · exact ih

end Token

/-! ## What tokens are like -/

/-- Literals are not empty and do not stand next to each other. -/
def Symbol.Separated : List Symbol → Prop
  | [] => True
  | symbol :: rest =>
    (∀ t, symbol = .literal t → t ≠ [] ∧ ∀ u, rest.head? ≠ some (.literal u)) ∧ Separated rest

namespace Token

theorem symbolOf_ne_literal (c : CodePoint) (t : Text) : symbolOf c ≠ .literal t := by
  unfold symbolOf
  repeat' split
  all_goals exact Symbol.noConfusion

/-- A reserved glyph is not taken for a literal. -/
theorem Step.ne_literal {g : Glyph} {rest behind : List Glyph} {symbol : Symbol}
    (h : Step g rest symbol behind) (hg : g.isReserved = true) (t : Text) :
    symbol ≠ .literal t := by
  cases h with
  | mark => exact symbolOf_ne_literal _ t
  | whole => exact Symbol.noConfusion
  | fractional => exact Symbol.noConfusion
  | literal hn => rw [hn] at hg; cases hg

/-- Grouping gathers as many literal glyphs as there are. -/
theorem separated_group {gs : List Glyph} {tokens : List Token} (h : group gs = .ok tokens) :
    Symbol.Separated (tokens.map Token.symbol) := by
  refine group_induction trivial (fun {g rest behind symbol more} hs hb ih => ?_) h
  refine ⟨fun t ht => ?_, ih⟩
  cases hs with
  | mark => exact absurd ht (symbolOf_ne_literal _ t)
  | whole => cases ht
  | fractional => cases ht
  | literal hg =>
    cases ht
    -- what ends the run of a literal is reserved, and no literal starts with that
    refine ⟨List.cons_ne_nil _ _, fun u hu => ?_⟩
    generalize hrun : (literalRun rest).2 = behind at hb
    cases behind with
    | nil => rw [group] at hb; cases hb; cases hu
    | cons b behind =>
      obtain ⟨symbol, behind', more', hs', -, rfl⟩ := group_cons_eq_ok_iff.1 hb
      have hres := head?_literalRun rest b (by rw [hrun]; rfl)
      exact hs'.ne_literal hres u (Option.some.inj hu)

end Token

end GeoPattern
