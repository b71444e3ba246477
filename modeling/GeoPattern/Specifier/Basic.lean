/-
Field specifiers: a letter repeated once for every integer digit and, after a decimal separator,
once for every fraction digit, as `DD`, `SS.SSS` or `HHHH,H`. Reading a specifier back from its
spelling refuses everything else, with the reason.
-/
import GeoPattern.Quantity
import GeoPattern.Digits

namespace GeoPattern

/-! ## Separators -/

/-- What stands between the integer and the fraction digits. -/
inductive Separator where
  | point
  | comma
deriving DecidableEq

namespace Separator

def symbol : Separator → CodePoint
  | point => '.'
  | comma => ','

def ofSymbol? (c : CodePoint) : Option Separator :=
  if c = '.' then some point else if c = ',' then some comma else none

@[simp] theorem ofSymbol?_symbol (s : Separator) : ofSymbol? s.symbol = some s := by
  cases s <;> rfl

end Separator

/-! ## Specifiers -/

/-- How a quantity is written: with how many integer digits at least, and how many fraction digits.
A specifier without fraction digits has the point as its separator. -/
structure Specifier where
  quantity : Quantity
  integerDigits : Nat
  separator : Separator
  fractionDigits : Nat
  integerDigits_pos : 0 < integerDigits
  separator_whole : fractionDigits = 0 → separator = .point
deriving DecidableEq

namespace Specifier

/-- A specifier without fraction digits, one integer digit and `more`. -/
def whole (quantity : Quantity) (more : Nat) : Specifier where
  quantity := quantity
  integerDigits := more + 1
  separator := .point
  fractionDigits := 0
  integerDigits_pos := Nat.succ_pos more
  separator_whole := fun _ => rfl

/-- A specifier with one integer digit and `more`, and one fraction digit and `places`. -/
def fractional (quantity : Quantity) (more : Nat) (separator : Separator) (places : Nat) :
    Specifier where
  quantity := quantity
  integerDigits := more + 1
  separator := separator
  fractionDigits := places + 1
  integerDigits_pos := Nat.succ_pos more
  separator_whole := fun h => absurd h (Nat.succ_ne_zero places)

/-- The specifier with the given character in place of its letter. -/
def spelledWith (s : Specifier) (c : CodePoint) : Text :=
  List.replicate s.integerDigits c ++
    if s.fractionDigits = 0 then [] else s.separator.symbol :: List.replicate s.fractionDigits c

/-- The text of the specifier in a pattern. -/
def spelling (s : Specifier) : Text := s.spelledWith s.quantity.letter

/-- The shape of the numbers that are written, with a zero for every digit. -/
def digitShape (s : Specifier) : Text := s.spelledWith '0'

/-! ## Reading a spelling -/

/-- Why a text is no specifier. -/
inductive Malformed where
  | empty
  | unknownLetter (letter : CodePoint)
  | severalSeparators
  | noFraction
  | foreignCharacter (c : CodePoint)
deriving DecidableEq

def Malformed.message (spelling : Text) : Malformed → Text
  | .empty => Text.lit "Empty numeric field pattern."
  | .unknownLetter letter =>
    Text.lit "Unknown field letter '" ++ letter :: Text.lit "' in '" ++ spelling ++ Text.lit "'."
  | .severalSeparators =>
    Text.lit "Numeric field '" ++ spelling ++ Text.lit "' contains more than one decimal separator."
  | .noFraction =>
    Text.lit "Numeric field '" ++ spelling ++ Text.lit "' has no fraction digits."
  | .foreignCharacter c =>
    Text.lit "Unrecognized character '" ++ c :: Text.lit "' in numeric field '" ++ spelling ++
      Text.lit "'."

def isSeparator (c : CodePoint) : Bool := (Separator.ofSymbol? c).isSome

/-- Splits a text at its first separator. -/
def splitAtSeparator : Text → Text × Option (Separator × Text)
  | [] => ([], none)
  | c :: rest =>
    match Separator.ofSymbol? c with
    | some separator => ([], some (separator, rest))
    | none =>
      let (integer, fraction) := splitAtSeparator rest
      (c :: integer, fraction)

/-- The specifier that a text spells. -/
def ofText (t : Text) : Except Malformed Specifier :=
  match t with
  | [] => .error .empty
  | letter :: rest =>
    match Quantity.ofLetter? letter with
    | none => .error (.unknownLetter letter)
    | some quantity =>
      if 1 < rest.countP isSeparator then .error .severalSeparators
      else
        match splitAtSeparator rest with
        | (_, some (_, [])) => .error .noFraction
        | (integer, some (separator, first :: fraction)) =>
          match (integer ++ first :: fraction).find? (· != letter) with
          | some c => .error (.foreignCharacter c)
          | none => .ok (fractional quantity integer.length separator fraction.length)
        | (integer, none) =>
          match integer.find? (· != letter) with
          | some c => .error (.foreignCharacter c)
          | none => .ok (whole quantity integer.length)

end Specifier

end GeoPattern
