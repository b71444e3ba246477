/-
Timed operations: a line when an operation starts, and one with its duration when it is completed
or has failed. A failure that the input is to blame for is a warning, any other an error.
-/
import GeoPattern.Double.Text
import GeoPattern.Log.Logger

namespace GeoPattern

/-- An operation, and the pattern it is about. -/
structure Timing where
  operation : Text
  pattern : Option Text

/-- How an operation ended. -/
inductive Ending where
  | completed
  | failed (reason : Text) (expected : Bool)

namespace Timing

def title (t : Timing) : Text :=
  match t.pattern with
  | none => t.operation
  | some pattern => t.operation ++ Text.lit " with '" ++ pattern ++ [.char '\'']

/-- A duration in milliseconds, from readings of a clock in seconds. -/
def duration (started ended : Double) : Text :=
  ((ended.sub started).mul (Double.ofInt 1000)).fixedText 3 ++ Text.lit " ms"

/-- The line at the start. -/
def opening (t : Timing) : Level × Text := (.debug, Text.lit "Starting " ++ t.title)

/-- The line at the end. -/
def closing (t : Timing) (duration : Text) : Ending → Level × Text
  | .completed => (.info, Text.lit "Completed " ++ t.title ++ Text.lit " in " ++ duration)
  | .failed reason expected =>
    (if expected then .warning else .error,
      Text.lit "Failed " ++ t.title ++ Text.lit " after " ++ duration ++ Text.lit ": " ++ reason)

end Timing

end GeoPattern
