/-
A position in a text, together with the last failure that was recorded there. A cursor goes through
a reading as a value, so going back to an earlier state is going on with the earlier cursor.

A position below zero counts from the end of the text. It is where a session may put the cursor; the
cursor of a formatter starts inside of the text.
-/
import GeoPattern.Specifier.Scan

namespace GeoPattern

/-! ## Failures -/

/-- What was not found in a text. -/
inductive Cause where
  | number (specifier : Specifier)
  | sign (mark : SignMark)
  | literal (text : Text)
  | endOfInput
  | other (text : Text)
deriving DecidableEq

def Cause.message : Cause → Text
  | .number specifier => Text.lit "Not found " ++ specifier.spelling
  | .sign mark => Text.lit "Not found " ++ [mark.positive, '/', mark.negative]
  | .literal text => Text.lit "Not found '" ++ text ++ [.char '\'']
  | .endOfInput => Text.lit "Not used all input"
  | .other text => text

/-- A cause with the position where it was met. -/
structure Failure where
  index : Int
  cause : Cause
deriving DecidableEq

/-- Why nothing is read at a position. -/
inductive Miss where
  /-- Something else stands there. -/
  | mismatch
  /-- The position lies in front of the text, where there is nothing to look at. -/
  | outside
deriving DecidableEq

/-! ## Positions -/

/-- The text from a position on, which may be empty; there is none behind the end of the text. A
position in front of the text stands for its beginning. -/
def Text.from? (text : Text) (index : Int) : Option Text :=
  if index < 0 then some (text.drop (text.length + index).toNat)
  else if text.length < index then none
  else some (text.drop index.toNat)

namespace Specifier

/-- The digits that count of a run at a position. A run that comes from below zero up to the
beginning of the text has its end counted from there, and keeps only what exceeds the text. -/
def countedRun (length : Nat) (index : Int) (run : Text) : Text :=
  if index < 0 ∧ 0 ≤ index + run.length then run.take (run.length - length) else run

/-- Reads a number at a position below zero, from where the end of the text leads on to its
beginning: the number and how many characters were passed. -/
def readFromEnd (s : Specifier) (signed bounded : Bool) (text : Text) (index : Int) :
    Except Miss (Double × Nat) :=
  if text.length + index < 0 then .error .outside
  else
    let passed := s.scan signed bounded (text.drop (text.length + index).toNat ++ text)
    let integerStart := index + passed.sign.toList.length
    let fractionStart := integerStart + passed.integer.length + 1
    let counted : Numeral :=
      ⟨passed.sign, countedRun text.length integerStart passed.integer,
        countedRun text.length fractionStart passed.fraction⟩
    if counted.hasDigits then .ok (counted.value, passed.length) else .error .mismatch

/-- Reads a number at a position: the number and how many characters it takes. -/
def readAt (s : Specifier) (signed bounded : Bool) (text : Text) (index : Int) :
    Except Miss (Double × Nat) :=
  if index < 0 then s.readFromEnd signed bounded text index
  else
    match (text.from? index).bind (s.scan? signed bounded) with
    | some numeral => .ok (numeral.value, numeral.length)
    | none => .error .mismatch

end Specifier

/-! ## Cursors -/

structure Cursor where
  index : Int
  failure : Option Failure
deriving DecidableEq

namespace Cursor

/-- A cursor without a failure. -/
def start (index : Int) : Cursor := ⟨index, none⟩

def advance (cursor : Cursor) (count : Int) : Cursor :=
  { cursor with index := cursor.index + count }

/-- Records a failure at a position. -/
def failAt (cursor : Cursor) (cause : Cause) (index : Int) : Cursor :=
  { cursor with failure := some ⟨index, cause⟩ }

/-- Records a failure where the cursor stands. -/
def fail (cursor : Cursor) (cause : Cause) : Cursor := cursor.failAt cause cursor.index

/-- A failure at a position of a text is recorded. -/
def hasFailure (cursor : Cursor) : Bool :=
  match cursor.failure with
  | some failure => 0 ≤ failure.index
  | none => false

end Cursor

/-- Reads a number at the cursor. A mismatch is recorded where the cursor stands. -/
def Specifier.read (s : Specifier) (signed bounded : Bool) (text : Text) (cursor : Cursor) :
    Except Miss Double × Cursor :=
  match s.readAt signed bounded text cursor.index with
  | .ok (value, count) => (.ok value, cursor.advance count)
  | .error .mismatch => (.error .mismatch, cursor.fail (.number s))
  | .error .outside => (.error .outside, cursor)

end GeoPattern
