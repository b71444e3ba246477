/-
Texts in quotes, as messages show them. What cannot be printed is shown by its number.
-/
import GeoPattern.Printable
import GeoPattern.Text

namespace GeoPattern

namespace Text

/-- A code point by its number, in two, four or eight hexadecimal digits. -/
def numbered (n : Nat) : Text :=
  if n < 0x100 then '\\' :: 'x' :: hexDigits 2 n
  else if n < 0x10000 then '\\' :: 'u' :: hexDigits 4 n
  else '\\' :: 'U' :: hexDigits 8 n

/-- One code point inside quotes of the given kind. -/
def quoteOne (mark c : CodePoint) : Text :=
  if c = mark ∨ c = '\\' then ['\\', c]
  else if c = '\n' then ['\\', 'n']
  else if c = '\r' then ['\\', 'r']
  else if c = '\t' then ['\\', 't']
  else if Printable.isHidden c.number then numbered c.number
  else [c]

/-- The quote that encloses a text: single, unless the text holds single quotes and no double
ones. -/
def quoteMark (t : Text) : CodePoint :=
  if t.contains '\'' && !t.contains '"' then '"' else '\''

/-- A text in quotes, with the enclosing quote, backslashes and hidden code points escaped. -/
def quoted (t : Text) : Text :=
  let mark := quoteMark t
  mark :: t.flatMap (quoteOne mark) ++ [mark]

end Text

end GeoPattern
