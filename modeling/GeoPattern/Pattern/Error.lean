/-
Why a text is no pattern. An error says what is wrong and where; its message quotes the pattern.
-/
import GeoPattern.Specifier.Basic

namespace GeoPattern

inductive PatternError where
  /-- There is no pattern at all. -/
  | absent
  /-- A quote stays open. -/
  | unclosedQuote (position : Nat)
  /-- A numeric field goes on after a second decimal separator. -/
  | severalSeparators (position : Nat)
  /-- A bracket stays open. -/
  | unclosedBracket (position : Nat)
  /-- A bracket closes that none opened. -/
  | unopenedBracket (position : Nat)
  /-- No numeric field follows a plus sign. -/
  | danglingSign (position : Nat)
  /-- Two fields write the same unit of an axis. -/
  | repeated (first second : Specifier)
  /-- An axis has more than one source of its sign. -/
  | severalSigns (axis : Axis)
  | minutesWithoutDegrees (minutes : Specifier)
  | minutesAfterSignedDegrees (degrees : Specifier)
  | minutesAfterFractionalDegrees (degrees : Specifier)
  | secondsWithoutMinutes (seconds : Specifier)
  | secondsAfterFractionalMinutes (minutes : Specifier)
deriving DecidableEq

namespace PatternError

/-- A text in single quotes, as it is. -/
def cited (t : Text) : Text := .char '\'' :: t ++ [.char '\'']

/-- A structural error with the position of its token. -/
def located (what : String) (position : Nat) (pattern : Text) : Text :=
  Text.lit what ++ Text.lit " at position " ++ digits position ++ Text.lit " in " ++
    cited pattern ++ [.char '.']

def message (pattern : Text) : PatternError → Text
  | absent => Text.lit "Pattern must not be None."
  | unclosedQuote position => located "Missing closing ' character for quote" position pattern
  | severalSeparators position =>
    Text.lit "Numeric field at position " ++ digits position ++ Text.lit " of " ++ cited pattern ++
      Text.lit " contains more than one decimal separator."
  | unclosedBracket position => located "No closing ']' found for '['" position pattern
  | unopenedBracket position => located "Missing open '[' bracket" position pattern
  | danglingSign position => located "'+' must be followed by a numeric field" position pattern
  | repeated first second =>
    Text.lit "Pattern " ++ cited pattern ++ Text.lit " contains the " ++
      Text.lit second.quantity.axis.name ++ .char ' ' :: Text.lit second.quantity.unit.name ++
      Text.lit " twice (" ++ cited first.spelling ++ Text.lit " and " ++ cited second.spelling ++
      Text.lit ")."
  | severalSigns axis =>
    Text.lit "Pattern " ++ cited pattern ++ Text.lit " defines the sign of the " ++
      Text.lit axis.name ++ Text.lit " more than once."
  | minutesWithoutDegrees minutes =>
    Text.lit "Minutes field " ++ cited minutes.spelling ++ Text.lit " in " ++ cited pattern ++
      Text.lit " requires a degree field."
  | minutesAfterSignedDegrees degrees =>
    Text.lit "Signed degrees " ++ cited degrees.spelling ++ Text.lit " in " ++ cited pattern ++
      Text.lit " can't be combined with minutes."
  | minutesAfterFractionalDegrees degrees =>
    Text.lit "Fractional degrees " ++ cited degrees.spelling ++ Text.lit " in " ++ cited pattern ++
      Text.lit " can't be followed by minutes."
  | secondsWithoutMinutes seconds =>
    Text.lit "Seconds field " ++ cited seconds.spelling ++ Text.lit " in " ++ cited pattern ++
      Text.lit " requires a minutes field."
  | secondsAfterFractionalMinutes minutes =>
    Text.lit "Fractional minutes " ++ cited minutes.spelling ++ Text.lit " in " ++ cited pattern ++
      Text.lit " can't be followed by seconds."

end PatternError

end GeoPattern
