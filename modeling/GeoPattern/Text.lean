/-
Texts are lists of code points throughout, so that a position counts code points and every scan is a
recursion on the list. This module holds what is common to messages, settings and command lines:
literals, hexadecimal digits, lengths in bytes, blanks and capitals.
-/
import GeoPattern.CodePoint

namespace GeoPattern

/-- The code points of a text; a position in it counts them. -/
abbrev Text := List CodePoint

namespace Text

/-- The text of a string, above all of a literal. -/
def lit (s : String) : Text := s.toList.map .char

/-- The string of a text, with the replacement character for a half of a surrogate pair. -/
def toString (t : Text) : String :=
  String.ofList (t.map fun
    | .char c => c
    | .surrogate _ => '\ufffd')

/-- The last `count` hexadecimal digits of a number, in small letters. -/
def hexDigits : (count n : Nat) → Text
  | 0, _ => []
  | count + 1, n => hexDigits count (n / 16) ++ [.char (Nat.digitChar (n % 16))]

/-- How many bytes the text takes in UTF-8. -/
def byteLength (t : Text) : Nat := t.foldl (fun count c => count + c.byteCount) 0

/-! ## Blanks -/

/-- The characters that may stand around a number: the six blanks of ASCII, and beyond ASCII the
white space of Unicode. -/
def isBlank (c : CodePoint) : Bool :=
  let n := c.number
  (9 ≤ n && n ≤ 13) || n == 32 || n == 0x85 || n == 0xA0 || n == 0x1680 ||
    (0x2000 ≤ n && n ≤ 0x200A) || n == 0x2028 || n == 0x2029 || n == 0x202F || n == 0x205F ||
    n == 0x3000

/-- The text without the blanks at both ends. -/
def trimmed (t : Text) : Text :=
  ((t.dropWhile isBlank).reverse.dropWhile isBlank).reverse

/-! ## Upper case -/

/-- The capitals of a character, as far as they are ASCII: of the ASCII letters, the dotless i, the
long and the sharp s, and the Latin ligatures. Any other code point stays. -/
def capitals (c : CodePoint) : Text :=
  match c with
  | 'ı' => ['I']
  | 'ſ' => ['S']
  | 'ß' => ['S', 'S']
  | 'ﬀ' => ['F', 'F']
  | 'ﬁ' => ['F', 'I']
  | 'ﬂ' => ['F', 'L']
  | 'ﬃ' => ['F', 'F', 'I']
  | 'ﬄ' => ['F', 'F', 'L']
  | 'ﬅ' | 'ﬆ' => ['S', 'T']
  | c => [c.map Char.toUpper]

/-- The text in capitals. -/
def capitalized (t : Text) : Text := t.flatMap capitals

end Text

end GeoPattern
