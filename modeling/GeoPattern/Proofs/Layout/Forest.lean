/-
Induction over the sequences of a tree, and the views of a tree that read it from left to right:
its leaves, its spelling, and the symbols that spell it. A sequence of nodes is followed node by
node, a nested sequence before what stands behind it.
-/
import GeoPattern.Pattern.Compile

namespace GeoPattern

namespace Node

/-! ## Induction -/

section Induction

variable {motive : List Node → Prop} (nil : motive [])
  (leaf : ∀ l rest, motive rest → motive (.leaf l :: rest))
  (group : ∀ body rest, motive body → motive rest → motive (.group body :: rest))
  (sequence : ∀ body rest, motive body → motive rest → motive (.sequence body :: rest))

include nil leaf group sequence

/-- A property of sequences holds of all of them if it holds of the empty one and is passed on by a
leaf in front, and by a nested sequence in front that has it itself. -/
@[elab_as_elim]
theorem forest_induction : ∀ nodes, motive nodes
  | [] => nil
  | .leaf l :: rest => leaf l rest (forest_induction rest)
  | .group body :: rest => group body rest (forest_induction body) (forest_induction rest)
  | .sequence body :: rest => sequence body rest (forest_induction body) (forest_induction rest)

end Induction

/-! ## Views from left to right -/

mutual

/-- The symbols that spell a node. -/
def symbols : Node → List Symbol
  | .leaf (.field f) => [.field f.specifier]
  | .leaf (.sign (.plus _)) => [.sign]
  | .leaf (.sign (.hemisphere kind)) => [.hemisphere kind]
  | .leaf (.literal text) => [.literal text]
  | .group body => .optionalStart :: symbolsOf body ++ [.optionalEnd]
  | .sequence body => symbolsOf body

def symbolsOf : List Node → List Symbol
  | [] => []
  | node :: rest => symbols node ++ symbolsOf rest

end

theorem leavesOf_append (a b : List Node) : leavesOf (a ++ b) = leavesOf a ++ leavesOf b := by
  induction a with
  | nil => rfl
  | cons node rest ih => simp [leavesOf, ih]

theorem symbolsOf_append (a b : List Node) : symbolsOf (a ++ b) = symbolsOf a ++ symbolsOf b := by
  induction a with
  | nil => rfl
  | cons node rest ih => simp [symbolsOf, ih]

end Node

/-- The text that stands for a symbol in a pattern: a literal is quoted as far as it needs it. -/
def Symbol.spelling : Symbol → Text
  | .literal text => escape text
  | symbol => symbol.text

/-- The specifiers of the fields among symbols. -/
def Symbol.specifiers (symbols : List Symbol) : List Specifier :=
  symbols.filterMap fun
    | .field s => some s
    | _ => none

namespace Node

/-- A tree is spelled symbol by symbol. -/
theorem spellingOf_eq (nodes : List Node) :
    spellingOf nodes = (symbolsOf nodes).flatMap Symbol.spelling := by
  induction nodes using forest_induction with
  | nil => rfl
  | leaf l rest ih =>
    rw [spellingOf, symbolsOf, List.flatMap_append, ih]
    cases l with
    | sign mark => cases mark <;> rfl
    | field f => simp [spelling, symbols, Leaf.spelling, Symbol.spelling, Symbol.text]
    | literal text => simp [spelling, symbols, Leaf.spelling, Symbol.spelling]
  | group body rest ihb ih =>
    rw [spellingOf, symbolsOf, List.flatMap_append, ih, spelling, symbols, ihb]
    simp [Symbol.spelling, Symbol.text]
  | sequence body rest ihb ih =>
    rw [spellingOf, symbolsOf, List.flatMap_append, ih, spelling, symbols, ihb]

/-- The fields of a tree are those of its symbols. -/
theorem specifiers_leavesOf (nodes : List Node) :
    Leaf.specifiers (leavesOf nodes) = Symbol.specifiers (symbolsOf nodes) := by
  induction nodes using forest_induction with
  | nil => rfl
  | leaf l rest ih =>
    unfold Leaf.specifiers Symbol.specifiers at *
    rw [leavesOf, symbolsOf, List.filterMap_append, List.filterMap_append, ih]
    cases l with
    | sign mark => cases mark <;> rfl
    | field f => rfl
    | literal text => rfl
  | group body rest ihb ih =>
    unfold Leaf.specifiers Symbol.specifiers at *
    rw [leavesOf, symbolsOf, List.filterMap_append, List.filterMap_append, ih, leaves, symbols, ihb]
    simp
  | sequence body rest ihb ih =>
    unfold Leaf.specifiers Symbol.specifiers at *
    rw [leavesOf, symbolsOf, List.filterMap_append, List.filterMap_append, ih, leaves, symbols, ihb]

end Node

end GeoPattern
