/-
The tree of a pattern: numeric fields, sign marks and literal texts in sequences, and optional
groups around sequences. A tree has a spelling, which is a pattern again.
-/
import GeoPattern.Pattern.Glyph
import GeoPattern.Specifier.Basic

namespace GeoPattern

/-! ## Leaves -/

/-- The finest unit of an axis, and its fraction digits. -/
structure Resolution where
  unit : MeasureUnit
  digits : Int
deriving DecidableEq

/-- A numeric field. Its resolution is the finest unit that the pattern writes for the axis: parts
of an angle are taken from the angle rounded to it. A bounded field reads no more digits than it
writes. -/
structure Field where
  specifier : Specifier
  bounded : Bool
  resolution : Option Resolution
deriving DecidableEq

/-- What a pattern writes and reads at one place. -/
inductive Leaf where
  | field (field : Field)
  | sign (mark : SignMark)
  | literal (text : Text)
deriving DecidableEq

namespace Leaf

/-- The axis of a field or a sign; a literal has none. -/
def axis? : Leaf → Option Axis
  | field f => some f.specifier.quantity.axis
  | sign mark => some mark.axis
  | literal _ => none

/-- The text of the leaf in a pattern. -/
def spelling : Leaf → Text
  | field f => f.specifier.spelling
  | sign mark => [mark.symbol]
  | literal text => escape text

end Leaf

/-! ## Trees -/

inductive Node where
  | leaf (leaf : Leaf)
  | group (body : List Node)
  | sequence (body : List Node)

namespace Node

mutual

/-- Two trees are compared node by node. -/
def decEq : (a b : Node) → Decidable (a = b)
  | .leaf a, .leaf b =>
    if h : a = b then isTrue (by rw [h]) else isFalse (by rintro ⟨⟩; exact h rfl)
  | .group a, .group b =>
    match decEqList a b with
    | isTrue h => isTrue (by rw [h])
    | isFalse h => isFalse (by rintro ⟨⟩; exact h rfl)
  | .sequence a, .sequence b =>
    match decEqList a b with
    | isTrue h => isTrue (by rw [h])
    | isFalse h => isFalse (by rintro ⟨⟩; exact h rfl)
  | .leaf _, .group _ | .leaf _, .sequence _ | .group _, .leaf _ | .group _, .sequence _
  | .sequence _, .leaf _ | .sequence _, .group _ => isFalse (by rintro ⟨⟩)

def decEqList : (a b : List Node) → Decidable (a = b)
  | [], [] => isTrue rfl
  | a :: as, b :: bs =>
    match decEq a b, decEqList as bs with
    | isTrue h, isTrue t => isTrue (by rw [h, t])
    | isFalse h, _ => isFalse (by rintro ⟨⟩; exact h rfl)
    | _, isFalse t => isFalse (by rintro ⟨⟩; exact t rfl)
  | [], _ :: _ | _ :: _, [] => isFalse (by rintro ⟨⟩)

end

instance : DecidableEq Node := decEq

mutual

/-- The leaves from left to right, whatever brackets they stand in. -/
def leaves : Node → List Leaf
  | .leaf l => [l]
  | .group body | .sequence body => leavesOf body

def leavesOf : List Node → List Leaf
  | [] => []
  | node :: rest => leaves node ++ leavesOf rest

end

mutual

/-- The text of the tree as a pattern. -/
def spelling : Node → Text
  | .leaf l => l.spelling
  | .group body => .char '[' :: spellingOf body ++ [.char ']']
  | .sequence body => spellingOf body

def spellingOf : List Node → Text
  | [] => []
  | node :: rest => spelling node ++ spellingOf rest

end

end Node

end GeoPattern
