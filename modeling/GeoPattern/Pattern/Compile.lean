/-
From a pattern to its tree. The tokens are assembled with a stack of open brackets; every field
gets the resolution of its axis, and is bounded if another field follows at once. A tree is then
checked: no part of a location occurs twice, no axis has two signs, and minutes and seconds stand
below whole degrees and whole minutes.
-/
import GeoPattern.Layout.Node
import GeoPattern.Pattern.Token

namespace GeoPattern

/-! ## Annotations -/

/-- The finer of two resolutions, the first one if they are equally fine. -/
def Resolution.finer (current : Option Resolution) (unit : MeasureUnit) (digits : Nat) :
    Option Resolution :=
  match current with
  | none => some ⟨unit, digits⟩
  | some r => if r.unit.perDegree < unit.perDegree then some ⟨unit, digits⟩ else some r

/-- Takes a field into the resolution of an axis: only unsigned angles of the axis count. -/
def Resolution.refine (axis : Axis) (current : Option Resolution) (s : Specifier) :
    Option Resolution :=
  if s.quantity.axis = axis ∧ s.quantity.isSigned = false ∧ s.quantity.unit ≠ .meter then
    finer current s.quantity.unit s.fractionDigits
  else current

/-- The specifiers of the fields among tokens. -/
def specifiersOf (tokens : List Token) : List Specifier :=
  tokens.filterMap fun t => match t.symbol with
    | .field s => some s
    | _ => none

/-- The finest unsigned unit of an axis, and its fraction digits. -/
def resolutionOf (specifiers : List Specifier) (axis : Axis) : Option Resolution :=
  specifiers.foldl (Resolution.refine axis) none

/-- The next token, leaving brackets aside, is a field. -/
def fieldFollows : List Token → Bool
  | [] => false
  | t :: rest => if t.symbol.isBracket then fieldFollows rest else t.symbol.isField

/-! ## Assembling -/

/-- A bracket that is open: its position, and the nodes in front of it, the last one first. -/
structure OpenGroup where
  position : Nat
  before : List Node

/-- Assembles tokens behind the nodes `done`, the last one first, inside of the open groups. -/
def assemble (resolution : Axis → Option Resolution) (opened : List OpenGroup)
    (done : List Node) : List Token → Except PatternError (List Node)
  | [] =>
    match opened with
    | [] => .ok done.reverse
    | innermost :: _ => .error (.unclosedBracket innermost.position)
  | token :: rest =>
    match token.symbol with
    | .optionalStart => assemble resolution (⟨token.position, done⟩ :: opened) [] rest
    | .optionalEnd =>
      match opened with
      | [] => .error (.unopenedBracket token.position)
      | innermost :: outer =>
        assemble resolution outer (.group done.reverse :: innermost.before) rest
    | .sign =>
      match rest with
      | ⟨.field s, _⟩ :: _ =>
        assemble resolution opened (.leaf (.sign (.plus s.quantity.axis)) :: done) rest
      | _ => .error (.danglingSign token.position)
    | .hemisphere kind =>
      assemble resolution opened (.leaf (.sign (.hemisphere kind)) :: done) rest
    | .field s =>
      let field : Field :=
        ⟨s, decide (1 < s.integerDigits) && fieldFollows rest, resolution s.quantity.axis⟩
      assemble resolution opened (.leaf (.field field) :: done) rest
    | .literal text => assemble resolution opened (.leaf (.literal text) :: done) rest

/-! ## Checking -/

/-- The specifiers of the fields among leaves. -/
def Leaf.specifiers (leaves : List Leaf) : List Specifier :=
  leaves.filterMap fun
    | .field f => some f.specifier
    | _ => none

/-- The axis whose sign a leaf carries. -/
def Leaf.signAxis? : Leaf → Option Axis
  | .field f => if f.specifier.quantity.isSigned then some f.specifier.quantity.axis else none
  | .sign mark => some mark.axis
  | .literal _ => none

/-- Two specifiers write the same unit of the same axis. -/
def Specifier.sharesUnit (a b : Specifier) : Bool :=
  a.quantity.axis == b.quantity.axis && a.quantity.unit == b.quantity.unit

/-- The first specifier that shares its unit with an earlier one, after that earlier one. -/
def firstRepeated? (seen : List Specifier) : List Specifier → Option (Specifier × Specifier)
  | [] => none
  | s :: rest =>
    match seen.find? s.sharesUnit with
    | some earlier => some (earlier, s)
    | none => firstRepeated? (seen ++ [s]) rest

/-- The field that writes a unit of an axis. -/
def fieldOf? (specifiers : List Specifier) (axis : Axis) (unit : MeasureUnit) : Option Specifier :=
  specifiers.find? fun s => s.quantity.axis == axis && s.quantity.unit == unit

/-- Minutes need unsigned whole degrees, and seconds need whole minutes. -/
def checkAngle (specifiers : List Specifier) (axis : Axis) : Except PatternError Unit := do
  let minutes? := fieldOf? specifiers axis .minute
  match minutes? with
  | none => pure ()
  | some minutes =>
    match fieldOf? specifiers axis .degree with
    | none => throw (.minutesWithoutDegrees minutes)
    | some degrees =>
      if degrees.quantity.isSigned then throw (.minutesAfterSignedDegrees degrees)
      if degrees.fractionDigits ≠ 0 then throw (.minutesAfterFractionalDegrees degrees)
  match fieldOf? specifiers axis .second with
  | none => pure ()
  | some seconds =>
    match minutes? with
    | none => throw (.secondsWithoutMinutes seconds)
    | some minutes =>
      if minutes.fractionDigits ≠ 0 then throw (.secondsAfterFractionalMinutes minutes)

/-- Refuses leaves whose meaning is ambiguous. -/
def validate (leaves : List Leaf) : Except PatternError Unit := do
  let specifiers := Leaf.specifiers leaves
  match firstRepeated? [] specifiers with
  | some (first, second) => throw (.repeated first second)
  | none => pure ()
  let signs := leaves.filterMap Leaf.signAxis?
  match signs.find? (fun axis => decide (1 < signs.count axis)) with
  | some axis => throw (.severalSigns axis)
  | none => pure ()
  checkAngle specifiers .latitude
  checkAngle specifiers .longitude

/-! ## Compiling -/

/-- The tree of a pattern: the nodes in its outermost sequence. -/
def compile (pattern : Text) : Except PatternError (List Node) := do
  let tokens ← tokenize pattern
  let body ← assemble (resolutionOf (specifiersOf tokens)) [] [] tokens
  validate (Node.leavesOf body)
  pure body

end GeoPattern
