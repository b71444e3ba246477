/-
Reading JSON. A reader works on the characters that are left and reports an error by how many of
them were left where it was noticed; the position is computed at the end, from the length of the
whole text. Besides the numbers of the standard, `NaN`, `Infinity` and `-Infinity` are read.
-/
import GeoPattern.Json.Basic

namespace GeoPattern

namespace Json

/-! ## Errors -/

/-- What is wrong with a text that is no JSON. -/
inductive Defect where
  | expectedValue
  | expectedKey
  | expectedColon
  | expectedComma
  | extraData
  | unterminatedString
  | controlCharacter
  | badEscape
  | badUnicodeEscape
  | byteOrderMark
  /-- A whole number has more digits than are read. -/
  | tooManyDigits (count : Nat)
deriving DecidableEq

/-- The most digits of a whole number. -/
def digitLimit : Nat := 4300

def Defect.message : Defect → Text
  | .expectedValue => Text.lit "Expecting value"
  | .expectedKey => Text.lit "Expecting property name enclosed in double quotes"
  | .expectedColon => Text.lit "Expecting ':' delimiter"
  | .expectedComma => Text.lit "Expecting ',' delimiter"
  | .extraData => Text.lit "Extra data"
  | .unterminatedString => Text.lit "Unterminated string starting at"
  | .controlCharacter => Text.lit "Invalid control character at"
  | .badEscape => Text.lit "Invalid \\escape"
  | .badUnicodeEscape => Text.lit "Invalid \\uXXXX escape"
  | .byteOrderMark => Text.lit "Unexpected UTF-8 BOM (decode using utf-8-sig)"
  | .tooManyDigits count =>
    Text.lit "Exceeds the limit (" ++ digits digitLimit ++
      Text.lit " digits) for integer string conversion: value has " ++ digits count ++
      Text.lit " digits; use sys.set_int_max_str_digits() to increase the limit"

/-- The defect lies in the text and not in the size of a number in it. -/
def Defect.isOfSyntax : Defect → Bool
  | .tooManyDigits _ => false
  | _ => true

/-- A defect, with the characters that were left where it was noticed. -/
structure Stop where
  defect : Defect
  left : Nat

/-- A defect with its position: line and column count from one, the offset from zero. -/
structure SyntaxError where
  defect : Defect
  line : Nat
  column : Nat
  offset : Nat
deriving DecidableEq

/-- The position of a defect in a text. -/
def SyntaxError.locate (whole : Text) (stop : Stop) : SyntaxError :=
  let offset := whole.length - stop.left
  let before := whole.take offset
  { defect := stop.defect
    line := before.count (.char '\n') + 1
    column := (before.reverse.takeWhile (· != .char '\n')).length + 1
    offset }

/-- The defect with its position, which is left out for a number that is too long. -/
def SyntaxError.message (e : SyntaxError) : Text :=
  if e.defect.isOfSyntax then
    e.defect.message ++ Text.lit ": line " ++ digits e.line ++ Text.lit " column " ++
      digits e.column ++ Text.lit " (char " ++ digits e.offset ++ [.char ')']
  else e.defect.message

/-! ## Strings -/

def isSpace (c : CodePoint) : Bool := c == ' ' || c == '\t' || c == '\n' || c == '\r'

def skipSpace (t : Text) : Text := t.dropWhile isSpace

/-- The value of a hexadecimal digit. -/
def hexValue? (c : CodePoint) : Option Nat :=
  let n := c.number
  if isDigit c then some (digitValue c)
  else if 97 ≤ n ∧ n ≤ 102 then some (n - 87)
  else if 65 ≤ n ∧ n ≤ 70 then some (n - 55)
  else none

/-- The number of four hexadecimal digits. -/
def hexNumber? : Text → Option Nat
  | [a, b, c, d] => do
    let a ← hexValue? a
    let b ← hexValue? b
    let c ← hexValue? c
    let d ← hexValue? d
    pure (((a * 16 + b) * 16 + c) * 16 + d)
  | _ => none

/-- The character of a single letter after a backslash. -/
def simpleEscape? (c : CodePoint) : Option CodePoint :=
  if c = '"' ∨ c = '\\' ∨ c = '/' then some c
  else if c = 'b' then some '\x08'
  else if c = 'f' then some '\x0c'
  else if c = 'n' then some '\n'
  else if c = 'r' then some '\r'
  else if c = 't' then some '\t'
  else none

/-- The second half of a pair of escapes for a character beyond the first plane. -/
def lowHalf? (rest : Text) : Except Stop (Option (Nat × Text)) :=
  match rest with
  | '\\' :: 'u' :: more =>
    if more.length < 5 then .ok none
    else
      match hexNumber? (more.take 4) with
      | none => .error ⟨.badUnicodeEscape, more.length + 1⟩
      | some low =>
        .ok (if 0xDC00 ≤ low ∧ low ≤ 0xDFFF then some (low, more.drop 4) else none)
  | _ => .ok none

/-- An escape of four hexadecimal digits, or of two such for one character; a half without its other
half stands alone. `rest` follows the letter of the escape. A text that ends with the digits is
refused. -/
def unicodeEscape (rest : Text) : Except Stop (CodePoint × Text) :=
  if rest.length < 5 then .error ⟨.badUnicodeEscape, rest.length + 1⟩
  else
    match hexNumber? (rest.take 4) with
    | none => .error ⟨.badUnicodeEscape, rest.length + 1⟩
    | some high =>
      let behind := rest.drop 4
      if 0xD800 ≤ high ∧ high ≤ 0xDBFF then do
        match ← lowHalf? behind with
        | some (low, more) =>
          pure (.ofNumber (0x10000 + (high - 0xD800) * 0x400 + (low - 0xDC00)), more)
        | none => pure (CodePoint.ofNumber high, behind)
      else .ok (CodePoint.ofNumber high, behind)

/-- Reads a string behind its opening quote; `opening` is what was left at that quote, and `fuel`
bounds the characters. -/
def readString (opening : Nat) : (fuel : Nat) → Text → Except Stop (Text × Text)
  | _, [] => .error ⟨.unterminatedString, opening⟩
  | 0, _ => .error ⟨.unterminatedString, opening⟩
  | _ + 1, '"' :: rest => .ok ([], rest)
  | _ + 1, ['\\'] => .error ⟨.unterminatedString, opening⟩
  | fuel + 1, '\\' :: 'u' :: rest => do
    let (c, behind) ← unicodeEscape rest
    let (tail, behind) ← readString opening fuel behind
    pure (c :: tail, behind)
  | fuel + 1, '\\' :: letter :: rest =>
    match simpleEscape? letter with
    | none => .error ⟨.badEscape, rest.length + 2⟩
    | some c => do
      let (tail, behind) ← readString opening fuel rest
      pure (c :: tail, behind)
  | fuel + 1, c :: rest =>
    if c.number < 32 then .error ⟨.controlCharacter, rest.length + 1⟩
    else do
      let (tail, behind) ← readString opening fuel rest
      pure (c :: tail, behind)

/-! ## Numbers -/

/-- The fraction of a number: a point with digits after it. -/
def numberFraction : Text → Text × Text
  | '.' :: rest =>
    let run := rest.takeWhile isDigit
    if run = [] then ([], '.' :: rest) else (run, rest.drop run.length)
  | rest => ([], rest)

/-- The exponent of a number, if a mark with digits stands here. -/
def numberExponent? : Text → Option (Int × Text)
  | mark :: rest =>
    if mark = 'e' ∨ mark = 'E' then
      let (negative, body) := Double.splitSign rest
      let run := body.takeWhile isDigit
      if run = [] then none
      else
        some (if negative then -(digitsValue run : Int) else digitsValue run, body.drop run.length)
    else none
  | [] => none

/-- Reads a number behind its sign. The integer part has no leading zero. -/
def readUnsigned (negative : Bool) (t : Text) : Except Defect (Json × Text) :=
  let integer : Text := match t with
    | '0' :: _ => ['0']
    | _ => t.takeWhile isDigit
  if integer = [] then .error .expectedValue
  else
    let (fraction, behind) := numberFraction (t.drop integer.length)
    let exponent := numberExponent? behind
    if fraction = [] ∧ exponent.isNone then
      if digitLimit < integer.length then .error (.tooManyDigits integer.length)
      else
        let n : Int := digitsValue integer
        .ok (.whole (if negative then -n else n), behind)
    else
      let power := exponent.elim 0 (·.1)
      let x := Double.ofScientific negative (integer ++ fraction) (power - fraction.length)
      .ok (.real x, exponent.elim behind (·.2))

/-- Words and the values they stand for. -/
def words : List (String × Json) := [
  ("null", .null), ("true", .bool true), ("false", .bool false),
  ("NaN", .real .nan), ("Infinity", .real (.infinite false)), ("-Infinity", .real (.infinite true))]

/-- Reads a word or a number. -/
def readScalar (t : Text) : Except Defect (Json × Text) :=
  match words.find? fun (word, _) => (Text.lit word).isPrefixOf t with
  | some (word, value) => .ok (value, t.drop word.length)
  | none =>
    match t with
    | '-' :: rest => readUnsigned true rest
    | t => readUnsigned false t

/-! ## Values -/

mutual

/-- Reads a value at the front of a text; `fuel` bounds the values and brackets. -/
def readValue : (fuel : Nat) → Text → Except Stop (Json × Text)
  | 0, t => .error ⟨.expectedValue, t.length⟩
  | _ + 1, '"' :: rest => do
    let (text, behind) ← readString (rest.length + 1) (rest.length + 1) rest
    pure (.string text, behind)
  | fuel + 1, '[' :: rest =>
    match skipSpace rest with
    | ']' :: behind => .ok (.array [], behind)
    | inner => do
      let (items, behind) ← readItems fuel inner
      pure (.array items, behind)
  | fuel + 1, '\x7b' :: rest =>
    match skipSpace rest with
    | '\x7d' :: behind => .ok (.object [], behind)
    | inner => do
      let (members, behind) ← readMembers fuel [] inner
      pure (.object members, behind)
  | _ + 1, t =>
    match readScalar t with
    | .ok result => .ok result
    | .error defect => .error ⟨defect, t.length⟩

/-- Reads the items of an array, up to its closing bracket. -/
def readItems : (fuel : Nat) → Text → Except Stop (List Json × Text)
  | 0, t => .error ⟨.expectedValue, t.length⟩
  | fuel + 1, t => do
    let (item, behind) ← readValue fuel t
    match skipSpace behind with
    | ']' :: rest => pure ([item], rest)
    | ',' :: rest =>
      let (items, behind) ← readItems fuel (skipSpace rest)
      pure (item :: items, behind)
    | rest => throw ⟨.expectedComma, rest.length⟩

/-- Reads the members of an object, up to its closing bracket. -/
def readMembers : (fuel : Nat) → List (Text × Json) → Text →
    Except Stop (List (Text × Json) × Text)
  | 0, _, t => .error ⟨.expectedKey, t.length⟩
  | fuel + 1, members, '"' :: inner => do
    let (key, behind) ← readString (inner.length + 1) (inner.length + 1) inner
    match skipSpace behind with
    | ':' :: rest =>
      let (value, behind) ← readValue fuel (skipSpace rest)
      match skipSpace behind with
      | '\x7d' :: rest => pure (put key value members, rest)
      | ',' :: rest => readMembers fuel (put key value members) (skipSpace rest)
      | rest => throw ⟨.expectedComma, rest.length⟩
    | rest => throw ⟨.expectedColon, rest.length⟩
  | _ + 1, _, t => .error ⟨.expectedKey, t.length⟩

end

/-- Reads a whole text, which holds one value and white space around it. -/
def readWhole (t : Text) : Except Stop Json :=
  match t with
  | '\ufeff' :: _ => .error ⟨.byteOrderMark, t.length⟩
  | t => do
    let (value, behind) ← readValue (2 * t.length + 2) (skipSpace t)
    match skipSpace behind with
    | [] => pure value
    | rest => throw ⟨.extraData, rest.length⟩

/-- The JSON value of a text. -/
def ofText (t : Text) : Except SyntaxError Json :=
  match readWhole t with
  | .ok value => .ok value
  | .error stop => .error (SyntaxError.locate t stop)

end Json

end GeoPattern
