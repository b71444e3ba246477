/-
The tokens of a pattern: numeric fields, signs, hemisphere letters, brackets, and literal texts. A
run of plain letters is one field, together with a decimal separator and the same letter after it;
all glyphs that are not reserved are gathered into one literal.
-/
import GeoPattern.Pattern.Error
import GeoPattern.Pattern.Glyph

namespace GeoPattern

/-- What a token stands for. -/
inductive Symbol where
  | field (specifier : Specifier)
  | sign
  | hemisphere (kind : Hemisphere)
  | optionalStart
  | optionalEnd
  | literal (text : Text)
deriving DecidableEq

/-- A symbol with the position of its first character. -/
structure Token where
  symbol : Symbol
  position : Nat
deriving DecidableEq

/-- The characters of a symbol, with the quotes of a literal resolved. -/
def Symbol.text : Symbol → Text
  | field specifier => specifier.spelling
  | sign => ['+']
  | hemisphere kind => [kind.symbol]
  | optionalStart => ['[']
  | optionalEnd => [']']
  | literal text => text

def Symbol.isField : Symbol → Bool
  | field _ => true
  | _ => false

def Symbol.isBracket : Symbol → Bool
  | optionalStart | optionalEnd => true
  | _ => false

namespace Token

def text (t : Token) : Text := t.symbol.text

/-! ## Runs of glyphs -/

/-- How many plain glyphs of a letter stand in front, and the glyphs behind them. -/
def letterRun (letter : CodePoint) : List Glyph → Nat × List Glyph
  | [] => (0, [])
  | g :: rest =>
    if g.isPlain letter then
      let (count, behind) := letterRun letter rest
      (count + 1, behind)
    else (0, g :: rest)

/-- A plain decimal separator with the letter after it: the separator, how many letters follow the
first one, and the glyphs behind them. -/
def fraction? (letter : CodePoint) : List Glyph → Option (Separator × Nat × List Glyph)
  | mark :: first :: rest =>
    match Separator.ofSymbol? mark.codePoint with
    | some separator =>
      if mark.plain ∧ first.isPlain letter then some (separator, letterRun letter rest) else none
    | none => none
  | _ => none

/-- The characters of the glyphs in front that are not reserved, and the glyphs behind them. -/
def literalRun : List Glyph → Text × List Glyph
  | [] => ([], [])
  | g :: rest =>
    if g.isReserved then ([], g :: rest)
    else
      let (text, behind) := literalRun rest
      (g.codePoint :: text, behind)

theorem length_letterRun (letter : CodePoint) (gs : List Glyph) :
    (letterRun letter gs).1 + (letterRun letter gs).2.length = gs.length := by
  induction gs with
  | nil => rfl
  | cons g rest ih =>
    unfold letterRun
    split
    · simp only [List.length_cons]; omega
    · simp

theorem length_of_fraction? {letter : CodePoint} {gs behind : List Glyph} {separator : Separator}
    {more : Nat} (h : fraction? letter gs = some (separator, more, behind)) :
    behind.length < gs.length := by
  unfold fraction? at h
  split at h
  · rename_i mark first rest
    split at h
    · split at h
      · have := length_letterRun letter rest
        simp only [Option.some.injEq, Prod.mk.injEq] at h
        simp only [h.2] at this
        simp only [List.length_cons]; omega
      · cases h
    · cases h
  · cases h

theorem length_literalRun (gs : List Glyph) :
    (literalRun gs).1.length + (literalRun gs).2.length = gs.length := by
  induction gs with
  | nil => rfl
  | cons g rest ih =>
    unfold literalRun
    split
    · simp
    · simp only [List.length_cons]; omega

/-! ## Grouping -/

/-- The symbol of a reserved character that is no field letter. -/
def symbolOf (c : CodePoint) : Symbol :=
  if c = '+' then .sign
  else if c = '[' then .optionalStart
  else if c = ']' then .optionalEnd
  else if c = 'x' then .hemisphere .eastWest
  else .hemisphere .northSouth

/-- Gathers glyphs into tokens. -/
def group (gs : List Glyph) : Except PatternError (List Token) :=
  match gs with
  | [] => .ok []
  | g :: rest =>
    if g.isReserved then
      match Quantity.ofLetter? g.codePoint with
      | none => (⟨symbolOf g.codePoint, g.position⟩ :: ·) <$> group rest
      | some quantity =>
        let run := letterRun g.codePoint rest
        match _h : fraction? g.codePoint run.2 with
        | none => (⟨.field (.whole quantity run.1), g.position⟩ :: ·) <$> group run.2
        | some (separator, places, behind) =>
          if (fraction? g.codePoint behind).isSome then .error (.severalSeparators g.position)
          else
            (⟨.field (.fractional quantity run.1 separator places), g.position⟩ :: ·) <$>
              group behind
    else
      let run := literalRun rest
      (⟨.literal (g.codePoint :: run.1), g.position⟩ :: ·) <$> group run.2
termination_by gs.length
decreasing_by
  · simp
  · have := length_letterRun g.codePoint rest
    simp only [List.length_cons]; omega
  · have := length_letterRun g.codePoint rest
    have : behind.length < (letterRun g.codePoint rest).2.length := length_of_fraction? _h
    simp only [List.length_cons]; omega
  · have := length_literalRun rest
    simp only [List.length_cons]; omega

end Token

/-- The tokens of a pattern. -/
def tokenize (pattern : Text) : Except PatternError (List Token) :=
  let (glyphs, left) := Glyph.scan 0 none pattern
  match Token.group glyphs, left with
  | .error e, _ => .error e
  | .ok _, some position => .error (.unclosedQuote position)
  | .ok tokens, none => .ok tokens

end GeoPattern
