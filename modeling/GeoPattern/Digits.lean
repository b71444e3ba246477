/-
Decimal digits of natural numbers: writing a number with as many digits as it needs or with a fixed
count, counting its digits, and reading a run of digits back.
-/
import GeoPattern.Text

namespace GeoPattern

/-! ## Digits as characters -/

/-- The ASCII digits; no other numeral of Unicode counts. -/
def isDigit (c : CodePoint) : Bool := 48 ≤ c.number && c.number ≤ 57

/-- The digit of a number below ten. -/
def digitChar (n : Nat) : CodePoint := Char.ofNat (48 + n)

/-- The number that a digit stands for. -/
def digitValue (c : CodePoint) : Nat := c.number - 48

/-! ## Writing -/

/-- The digits of `n`, without leading zeros; zero has one digit. -/
def digits (n : Nat) : Text :=
  if n < 10 then [digitChar n] else digits (n / 10) ++ [digitChar (n % 10)]

/-- The last `count` digits of `n`, padded with zeros, in front of a text. -/
def fixedDigitsBefore (tail : Text) : (count n : Nat) → Text
  | 0, _ => tail
  | count + 1, n => fixedDigitsBefore (digitChar (n % 10) :: tail) count (n / 10)

/-- The last `count` digits of `n`, padded with zeros. -/
def fixedDigits (count n : Nat) : Text := fixedDigitsBefore [] count n

theorem fixedDigitsBefore_eq_append (tail : Text) (count n : Nat) :
    fixedDigitsBefore tail count n = fixedDigits count n ++ tail := by
  unfold fixedDigits
  induction count generalizing tail n with
  | zero => rfl
  | succ count ih =>
    rw [fixedDigitsBefore, fixedDigitsBefore, ih, ih [digitChar (n % 10)]]
    simp

@[simp] theorem fixedDigits_zero (n : Nat) : fixedDigits 0 n = [] := rfl

theorem fixedDigits_succ (count n : Nat) :
    fixedDigits (count + 1) n = fixedDigits count (n / 10) ++ [digitChar (n % 10)] := by
  rw [fixedDigits, fixedDigitsBefore, fixedDigitsBefore_eq_append]

/-- `n` with zeros in front of its digits up to the given width. -/
def paddedDigits (width n : Nat) : Text :=
  List.replicate (width - (digits n).length) (.char '0') ++ digits n

/-- How many digits `n` has; zero counts one. -/
def digitCount (n : Nat) : Nat :=
  if n < 10 then 1 else digitCount (n / 10) + 1

/-- A whole number with its sign, which is left out for a positive one. -/
def signedDigits (n : Int) : Text :=
  if n < 0 then '-' :: digits n.natAbs else digits n.natAbs

/-! ## Reading -/

/-- The number that a run of digits denotes; the empty run denotes zero. -/
def digitsValue (run : Text) : Nat := run.foldl (fun value c => 10 * value + digitValue c) 0

/-- The digits at the front of a text, at most `limit` of them if there is a limit. -/
def digitRun (limit : Option Nat) (rest : Text) : Text :=
  match limit with
  | some count => (rest.take count).takeWhile isDigit
  | none => rest.takeWhile isDigit

end GeoPattern
