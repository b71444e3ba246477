/-
Quoting in patterns. A single quote opens or closes quoted text, and two quotes in a row are one
quote as text, inside quoted text as outside of it. With the quotes resolved, a pattern is a list
of glyphs: code points with their positions, each plain or taken as text.
Quoting a text so that it stands for itself doubles its quotes and encloses it in quotes when it
holds a character with a meaning of its own.
-/
import GeoPattern.Quantity

namespace GeoPattern

/-! ## Reserved characters -/

/-- The characters that mean something when they stand outside of quotes. -/
def isReserved (c : CodePoint) : Bool :=
  (Quantity.ofLetter? c).isSome || c == '+' || c == 'X' || c == 'x' || c == '[' || c == ']'

/-! ## Glyphs -/

/-- A character of a pattern with the quotes resolved; it is plain if no quote made it text. -/
structure Glyph where
  codePoint : CodePoint
  position : Nat
  plain : Bool
deriving DecidableEq

namespace Glyph

/-- The glyph has the meaning of its character. -/
def isReserved (g : Glyph) : Bool := g.plain && GeoPattern.isReserved g.codePoint

/-- The glyph is that character, and plain. -/
def isPlain (g : Glyph) (c : CodePoint) : Bool := g.plain && g.codePoint == c

/-- The glyphs of the rest of a pattern, from a position on, where `opened` is the position of the
quote that is open. The second result is the quote that stays open. -/
def scan (position : Nat) (opened : Option Nat) : Text → List Glyph × Option Nat
  | [] => ([], opened)
  | '\'' :: '\'' :: rest =>
    let (glyphs, left) := scan (position + 2) opened rest
    (⟨'\'', position, false⟩ :: glyphs, left)
  | '\'' :: rest =>
    scan (position + 1) (match opened with | none => some position | some _ => none) rest
  | c :: rest =>
    let (glyphs, left) := scan (position + 1) opened rest
    (⟨c, position, opened.isNone⟩ :: glyphs, left)

end Glyph

/-! ## Escaping -/

/-- Doubles every quote. -/
def doubleQuotes : Text → Text
  | [] => []
  | c :: rest => if c = '\'' then '\'' :: '\'' :: doubleQuotes rest else c :: doubleQuotes rest

/-- A text as it is written in a pattern to stand for itself. -/
def escape (t : Text) : Text :=
  if t.any isReserved then .char '\'' :: doubleQuotes t ++ [.char '\''] else doubleQuotes t

end GeoPattern
