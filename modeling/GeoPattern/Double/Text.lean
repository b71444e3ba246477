/-
Doubles as texts: the shortest decimal in positional or scientific notation, a fixed count of
fraction digits, and reading the notation of command lines and settings back.
-/
import GeoPattern.Decimal
import GeoPattern.Double.Shortest
import GeoPattern.Numerals

namespace GeoPattern

-- powers of natural numbers are those of the core library, whatever else is imported
attribute [local instance (high)] instPowNat

namespace Double

/-! ## Writing -/

/-- Where the positional notation of a number ends, by the power of ten of its first digit. -/
structure NumberForm where
  leastPositional : Int
  mostPositional : Int
  exponentDigits : Nat

/-- Coordinates are positional from `0.0001` to below `10 ^ 16`, and an exponent has two digits at
least. -/
def coordinateForm : NumberForm := ⟨-4, 15, 2⟩

/-- The digits with the point after the first `point` of them, and with zeros where digits lack. -/
def positional (run : Text) (point : Int) : Text :=
  if point ≤ 0 then
    .char '0' :: .char '.' :: List.replicate (-point).toNat (.char '0') ++ run
  else
    let whole := run.take point.toNat
    let fraction := run.drop point.toNat
    whole ++ List.replicate (point.toNat - whole.length) (.char '0') ++ .char '.' ::
      (if fraction = [] then [.char '0'] else fraction)

/-- One digit, the other digits after a point, and the power of ten. -/
def scientific (exponentDigits : Nat) (run : Text) (exponent : Int) : Text :=
  let sign : CodePoint := if exponent < 0 then '-' else '+'
  let power := paddedDigits exponentDigits exponent.natAbs
  match run with
  | first :: second :: rest => first :: .char '.' :: second :: rest ++ .char 'e' :: sign :: power
  | run => run ++ .char 'e' :: sign :: power

/-- The text of a decimal `coefficient * 10 ^ exponent` other than zero. -/
def decimalText (form : NumberForm) (coefficient : Nat) (exponent : Int) : Text :=
  let run := digits coefficient
  let leading := exponent + run.length - 1
  if form.leastPositional ≤ leading ∧ leading ≤ form.mostPositional then
    positional run (leading + 1)
  else scientific form.exponentDigits run leading

/-- The text of a double: the shortest decimal that reads back as it, zero with its sign. -/
def text : Double → Text
  | .nan => Text.lit "nan"
  | .infinite negative => if negative then Text.lit "-inf" else Text.lit "inf"
  | .finite negative magnitude =>
    let sign : Text := if negative then ['-'] else []
    if magnitude.units = 0 then sign ++ Text.lit "0.0"
    else
      let (coefficient, exponent) := magnitude.shortest
      sign ++ decimalText coordinateForm coefficient exponent

/-- The text of a double with a fixed count of fraction digits. -/
def fixedText (places : Nat) : Double → Text
  | .nan => Text.lit "nan"
  | .infinite negative => if negative then Text.lit "-inf" else Text.lit "inf"
  | .finite negative magnitude =>
    let sign : Text := if negative then ['-'] else []
    let scaled := roundHalfEven (magnitude.units * 10 ^ places) unitsPerOne
    sign ++ digits (scaled / 10 ^ places) ++
      (if places = 0 then [] else .char '.' :: fixedDigits places (scaled % 10 ^ places))

/-! ## Reading -/

/-- Powers of ten beyond which every number is zero or infinite. -/
def exponentBound : Int := 400

/-- The double nearest to the number of a digit run times `10 ^ exponent`; a power that leaves the
range for certain is not computed. -/
def ofScientific (negative : Bool) (run : Text) (exponent : Int) : Double :=
  let significant := run.dropWhile (· == .char '0')
  if significant = [] then .finite negative .zero
  else
    let leading := exponent + significant.length
    if leading < -exponentBound then .finite negative .zero
    else if exponentBound < leading then .infinite negative
    else Decimal.toDouble negative ⟨digitsValue significant, exponent⟩

/-- The sign in front of a number, if there is one, and the rest. -/
def splitSign : Text → Bool × Text
  | '-' :: rest => (true, rest)
  | '+' :: rest => (false, rest)
  | rest => (false, rest)

/-- The exponent at the end of a number: none, or a mark, a sign and digits. -/
def exponentOf? : Text → Option Int
  | [] => some 0
  | mark :: rest =>
    if mark = 'e' ∨ mark = 'E' then
      let (negative, run) := splitSign rest
      if run ≠ [] ∧ run.all isDigit then
        some (if negative then -(digitsValue run : Int) else digitsValue run)
      else none
    else none

/-- A number without sign: digits with at most one point among them, at least one digit, and an
exponent. -/
def ofUnsigned? (negative : Bool) (t : Text) : Option Double :=
  let whole := t.takeWhile isDigit
  let rest := t.dropWhile isDigit
  let fraction := match rest with
    | '.' :: more => more.takeWhile isDigit
    | _ => []
  let tail := match rest with
    | '.' :: more => more.dropWhile isDigit
    | _ => rest
  if whole = [] ∧ fraction = [] then none
  else
    (exponentOf? tail).map fun exponent =>
      ofScientific negative (whole ++ fraction) (exponent - fraction.length)

/-- Every underscore stands between two digits. -/
def underscoresSeparate : Text → Bool
  | '_' :: _ => false
  | a :: '_' :: b :: rest => isDigit a && isDigit b && underscoresSeparate (b :: rest)
  | [_, '_'] => false
  | _ :: rest => underscoresSeparate rest
  | [] => true

/-- A number as written on a command line: blanks around it, a sign, digits of any script with
underscores between them, and the names of infinity and of what is no number, in any case. -/
def ofText? (t : Text) : Option Double :=
  let (negative, body) := splitSign ((Text.trimmed t).map Numerals.toAscii)
  let name := body.map (CodePoint.map Char.toLower)
  if name = Text.lit "inf" ∨ name = Text.lit "infinity" then some (.infinite negative)
  else if name = Text.lit "nan" then some .nan
  else if underscoresSeparate body then ofUnsigned? negative (body.filter (· ≠ '_'))
  else none

end Double

end GeoPattern
