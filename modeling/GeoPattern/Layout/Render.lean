/-
Writing a location with a tree. A part whose component is absent makes its sequence absent, an
absent optional group is left out, and an error is never caught by a group.
-/
import GeoPattern.Angle
import GeoPattern.Layout.Node
import GeoPattern.Specifier.Render

namespace GeoPattern

namespace Field

/-- Takes the part of a unit out of degrees, minutes and seconds. -/
def partOf (unit : MeasureUnit) (parts : Double × Double × Double) : Double :=
  match unit with
  | .degree => parts.1
  | .minute => parts.2.1
  | .second | .meter => parts.2.2

/-- The number that an unsigned field writes for a finite component. Degrees without smaller units
are written with their fraction, or without one cut off to whole degrees; otherwise the part is
taken from the angle rounded to the resolution. -/
def unsignedValue (f : Field) (raw : Double) : Except FormatError Double :=
  let unit := f.specifier.quantity.unit
  let resolution := f.resolution.getD ⟨unit, f.specifier.fractionDigits⟩
  if unit = .meter then .ok raw.abs
  else if resolution.unit = .degree then
    .ok (if resolution.digits = 0 then raw.abs.truncate else raw.abs)
  else
    match Angle.parts raw resolution.unit resolution.digits with
    | .ok parts => .ok (partOf unit parts)
    | .error refusal => .error (.arithmetic refusal)

/-- The number that a field writes for a component. -/
def value (f : Field) (raw : Double) : Except FormatError Double :=
  if f.specifier.quantity.isSigned || !raw.isFinite then .ok raw else f.unsignedValue raw

end Field

namespace Leaf

/-- The text of a leaf, if the component of its axis is present. -/
def render (location : Location) : Leaf → Except FormatError (Option Text)
  | field f =>
    match location.component f.specifier.quantity.axis with
    | none => .ok none
    | some raw => do
      let text ← f.specifier.render (← f.value raw)
      pure (some text)
  | sign mark =>
    match location.component mark.axis with
    | none => .ok none
    | some raw => .ok (some [if raw.isAtLeastZero then mark.positive else mark.negative])
  | literal text => .ok (some text)

end Leaf

namespace Node

mutual

/-- The text of a tree, if every part outside of its groups is present. -/
def render (location : Location) : Node → Except FormatError (Option Text)
  | .leaf l => l.render location
  | .sequence body => renderAll location body
  | .group body => do
    let text ← renderAll location body
    pure (some (text.getD []))

/-- The texts of a sequence, one after the other. -/
def renderAll (location : Location) : List Node → Except FormatError (Option Text)
  | [] => .ok (some [])
  | node :: rest => do
    match ← render location node with
    | none => pure none
    | some text =>
      let tail ← renderAll location rest
      pure (tail.map (text ++ ·))

end

end Node

end GeoPattern
