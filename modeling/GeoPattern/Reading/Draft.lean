/-
A location while it is being read. Degrees, minutes and seconds are summed up in degrees, and the
sign of a component is kept apart from its size until the location is built, so that a sign may be
read before or after the number it belongs to.
-/
import GeoPattern.Location

namespace GeoPattern

/-- The sign of a component, as a multiplier, and its size as far as it was read. -/
structure Component where
  sign : Int
  size : Option Double
deriving DecidableEq

namespace Component

def empty : Component := ⟨1, none⟩

/-- Adds to the size; a number below zero makes the component negative. -/
def add (component : Component) (x : Double) : Component where
  sign := if x.isBelowZero then -1 else component.sign
  size := some ((component.size.getD .zero).add x.abs)

/-- The sign is a finite double, or there is no size that it applies to. -/
def isInRange (component : Component) : Bool :=
  component.size.isNone || (Double.ofInt? component.sign).isSome

/-- The component with its sign applied. -/
def value (component : Component) : Option Double :=
  component.size.map (Double.ofInt component.sign).mul

def text (component : Component) : Text :=
  let sign : CodePoint := if component.sign < 0 then '-' else '+'
  sign :: digits component.sign.natAbs ++ .char '*' :: Location.componentText component.size

end Component

structure Draft where
  latitude : Component
  longitude : Component
  elevation : Component
deriving DecidableEq

namespace Draft

def empty : Draft := ⟨.empty, .empty, .empty⟩

def component (draft : Draft) : Axis → Component
  | .latitude => draft.latitude
  | .longitude => draft.longitude
  | .elevation => draft.elevation

/-- Changes the component of one axis. -/
def modify (draft : Draft) (axis : Axis) (f : Component → Component) : Draft :=
  match axis with
  | .latitude => { draft with latitude := f draft.latitude }
  | .longitude => { draft with longitude := f draft.longitude }
  | .elevation => { draft with elevation := f draft.elevation }

def setSign (draft : Draft) (axis : Axis) (sign : Int) : Draft :=
  draft.modify axis ({ · with sign })

def setSize (draft : Draft) (axis : Axis) (size : Option Double) : Draft :=
  draft.modify axis ({ · with size })

/-- Adds a number of degrees. -/
def addDegrees (draft : Draft) (axis : Axis) (degrees : Double) : Draft :=
  draft.modify axis (·.add degrees)

def addMinutes (draft : Draft) (axis : Axis) (minutes : Double) : Draft :=
  draft.addDegrees axis (minutes.divNat 60)

def addSeconds (draft : Draft) (axis : Axis) (seconds : Double) : Draft :=
  draft.addDegrees axis (seconds.divNat 3600)

/-- Takes a number in: parts of an angle are added up, meters replace what was there. -/
def take (draft : Draft) (quantity : Quantity) (x : Double) : Draft :=
  match quantity.unit with
  | .degree => draft.addDegrees quantity.axis x
  | .minute => draft.addMinutes quantity.axis x
  | .second => draft.addSeconds quantity.axis x
  | .meter => draft.setSize quantity.axis (some x)

/-- The location; a component of which no number was read is absent. -/
def build (draft : Draft) : Location :=
  ⟨draft.latitude.value, draft.longitude.value, draft.elevation.value⟩

/-- The location, unless a sign that was set is too large a number for its component. -/
def build? (draft : Draft) : Option Location :=
  if draft.latitude.isInRange ∧ draft.longitude.isInRange ∧ draft.elevation.isInRange then
    some draft.build
  else none

def text (draft : Draft) : Text :=
  Text.lit "LocationBuilder(lat=" ++ draft.latitude.text ++
    Text.lit ", lon=" ++ draft.longitude.text ++
    Text.lit ", ele=" ++ draft.elevation.text ++ [.char ')']

end Draft

end GeoPattern
