/-
Reading a number with a specifier: an optional sign, integer digits, and a fraction after the
separator if the specifier has one. The longest such numeral at the front of the text is read; with
a bound it takes no more digits than the specifier writes.
-/
import GeoPattern.Specifier.Basic
import GeoPattern.Double.Text

namespace GeoPattern

/-- A numeral as it was read: its sign, if one was written, and the digits around the separator. -/
structure Numeral where
  sign : Option CodePoint
  integer : Text
  fraction : Text
deriving DecidableEq

namespace Numeral

/-- The numeral with a separator in front of its fraction. -/
def spelledWith (n : Numeral) (separator : Separator) : Text :=
  n.sign.toList ++ n.integer ++
    if n.fraction = [] then [] else separator.symbol :: n.fraction

def hasDigits (n : Numeral) : Bool := n.integer != [] || n.fraction != []

/-- How many characters the numeral takes. -/
def length (n : Numeral) : Nat :=
  n.sign.toList.length + n.integer.length +
    if n.fraction = [] then 0 else n.fraction.length + 1

def isNegative (n : Numeral) : Bool := n.sign == some '-'

/-- The decimal number that the digits denote. -/
def decimal (n : Numeral) : Decimal := ⟨digitsValue (n.integer ++ n.fraction), -n.fraction.length⟩

/-- The double nearest to the number that the numeral denotes. -/
def value (n : Numeral) : Double := n.decimal.toDouble n.isNegative

end Numeral

namespace Specifier

/-- The sign at the front of a text, if a sign may stand there. -/
def scanSign (signed : Bool) (rest : Text) : Option CodePoint × Text :=
  match signed, rest with
  | true, '+' :: more => (some '+', more)
  | true, '-' :: more => (some '-', more)
  | _, rest => (none, rest)

/-- The fraction digits behind the integer digits; a separator without a digit after it is none. -/
def scanFraction (s : Specifier) (limit : Option Nat) : Text → Text
  | [] => []
  | c :: more => if 0 < s.fractionDigits ∧ c = s.separator.symbol then digitRun limit more else []

/-- The sign and the digits at the front of a text, as far as there are any. -/
def scan (s : Specifier) (signed bounded : Bool) (rest : Text) : Numeral :=
  let (sign, body) := scanSign signed rest
  let integer := digitRun (if bounded then some s.integerDigits else none) body
  let fraction := s.scanFraction (if bounded then some s.fractionDigits else none)
    (body.drop integer.length)
  ⟨sign, integer, fraction⟩

/-- The longest numeral at the front of a text. -/
def scan? (s : Specifier) (signed bounded : Bool) (rest : Text) : Option Numeral :=
  let numeral := s.scan signed bounded rest
  if numeral.hasDigits then some numeral else none

end Specifier

end GeoPattern
