/-
Rounding a quotient of natural numbers to the nearest whole number, a tie going to the even
neighbour. Every rounding of the library is this one: a double rounds its binary significand with
it, a decimal its coefficient.
-/

namespace GeoPattern

/-- The whole number nearest to `num / den`; of two equally near ones the even one. -/
def roundHalfEven (num den : Nat) : Nat :=
  let quotient := num / den
  let remainder := num % den
  if 2 * remainder < den then quotient
  else if den < 2 * remainder then quotient + 1
  else quotient + quotient % 2

theorem roundHalfEven_le (num den : Nat) : roundHalfEven num den ≤ num / den + 1 := by
  unfold roundHalfEven
  dsimp only
  split
  · omega
  · split <;> omega

end GeoPattern
