/-
Reading a location with a tree. A leaf looks at the text from the cursor on, and either contributes
to the draft and moves the cursor, or fails. A group that fails gives back the state in front of
it; a failed sequence ends in the state in which its leaf failed. A position in front of the text
ends the whole reading, also from inside of groups.
-/
import GeoPattern.Layout.Node
import GeoPattern.Reading.Cursor
import GeoPattern.Reading.Draft

namespace GeoPattern

/-! ## Leaves -/

/-- What a leaf adds to the location that is read. -/
inductive Contribution where
  | nothing
  | sign (axis : Axis) (sign : Int)
  | number (quantity : Quantity) (value : Double)
deriving DecidableEq

/-- Takes a contribution into a draft. -/
def Draft.accept (draft : Draft) : Contribution → Draft
  | .nothing => draft
  | .sign axis sign => draft.setSign axis sign
  | .number quantity value => draft.take quantity value

namespace Leaf

/-- What is not found where the leaf cannot be read. -/
def cause : Leaf → Cause
  | field f => .number f.specifier
  | sign mark => .sign mark
  | literal text => .literal text

/-- Reads a sign at the front of a text. -/
def readSign? (mark : SignMark) (rest : Text) : Option Contribution :=
  match rest with
  | [] => none
  | c :: _ =>
    if c = mark.positive then some (.sign mark.axis 1)
    else if c = mark.negative then some (.sign mark.axis (-1))
    else none

/-- Reads a leaf at a position of a text: how many characters it takes and what it contributes. -/
def readAt (leaf : Leaf) (text : Text) (index : Int) : Except Miss (Nat × Contribution) :=
  match leaf with
  | field f => do
    let quantity := f.specifier.quantity
    let (value, count) ← f.specifier.readAt quantity.isSigned f.bounded text index
    pure (count, .number quantity value)
  | sign mark =>
    if text.length + index < 0 then .error .outside
    else
      match (text.from? index).bind (readSign? mark) with
      | some contribution => .ok (1, contribution)
      | none => .error .mismatch
  | literal value =>
    match text.from? index with
    | some rest => if value.isPrefixOf rest then .ok (value.length, .nothing) else .error .mismatch
    | none => .error .mismatch

end Leaf

/-! ## Trees -/

/-- How far a reading has come, and what it has read. -/
structure ReadState where
  cursor : Cursor
  draft : Draft
deriving DecidableEq

/-- Why a reading ended early, and in which state. -/
structure Stop where
  miss : Miss
  state : ReadState
deriving DecidableEq

/-- Reads a leaf at the cursor; a mismatch is recorded there. -/
def ReadState.step (text : Text) (state : ReadState) (leaf : Leaf) : Except Stop ReadState :=
  match leaf.readAt text state.cursor.index with
  | .ok (count, contribution) =>
    .ok ⟨state.cursor.advance count, state.draft.accept contribution⟩
  | .error .mismatch => .error ⟨.mismatch, { state with cursor := state.cursor.fail leaf.cause }⟩
  | .error .outside => .error ⟨.outside, state⟩

namespace Node

mutual

/-- Reads a tree. A group that does not match gives back the state in front of it; a position in
front of the text is not made good, but what the group has read of the location is dropped. -/
def read (text : Text) (state : ReadState) : Node → Except Stop ReadState
  | .leaf l => state.step text l
  | .sequence body => readAll text state body
  | .group body =>
    match readAll text state body with
    | .ok after => .ok after
    | .error ⟨.mismatch, _⟩ => .ok state
    | .error ⟨.outside, stopped⟩ => .error ⟨.outside, { stopped with draft := state.draft }⟩

/-- Reads the nodes of a sequence one after the other. -/
def readAll (text : Text) (state : ReadState) : List Node → Except Stop ReadState
  | [] => .ok state
  | node :: rest =>
    match read text state node with
    | .ok after => readAll text after rest
    | .error stop => .error stop

end

end Node

end GeoPattern
