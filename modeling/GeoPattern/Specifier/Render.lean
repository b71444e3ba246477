/-
Writing a number with a specifier: the exact value is rounded to the fraction digits, the integer
part is padded with zeros, and a minus sign stands in front of what is below zero after rounding.
-/
import GeoPattern.FormatError

namespace GeoPattern

-- powers of natural numbers are those of the core library, whatever else is imported
attribute [local instance (high)] instPowNat

namespace Specifier

/-- The text of a rounded number in the notation of the specifier. -/
def renderRounded (s : Specifier) (negative : Bool) (rounded : Decimal) : Text :=
  let places := (-rounded.exponent).toNat
  let one := 10 ^ places
  let sign : Text := if negative ∧ rounded.coefficient ≠ 0 then ['-'] else []
  sign ++ paddedDigits s.integerDigits (rounded.coefficient / one) ++
    if places = 0 then []
    else s.separator.symbol :: fixedDigits places (rounded.coefficient % one)

/-- The text of a finite number, unless it needs more than 28 digits. -/
def render (s : Specifier) (value : Double) : Except FormatError Text :=
  match value with
  | .finite negative magnitude =>
    match (Decimal.ofMagnitude magnitude).quantize s.fractionDigits with
    | .ok rounded => .ok (s.renderRounded negative rounded)
    | .error refusal => .error (.arithmetic refusal)
  | value => .error (.notFinite value s)

end Specifier

end GeoPattern
