/-
The code points of Unicode. Nearly all of them are characters; the halves of surrogate pairs are
none, but a JSON text may spell a half that stands alone, and texts that differ in it differ. A code
point is known by its number.
-/

namespace GeoPattern

/-- A character, or a half of a surrogate pair that stands alone. -/
inductive CodePoint where
  | char (c : Char)
  | surrogate (half : Fin 0x800)
deriving DecidableEq

instance : Coe Char CodePoint := ⟨.char⟩

namespace CodePoint

/-- The number of the first half. -/
def firstSurrogate : Nat := 0xD800

/-- The number of a code point; the halves fill the gap that the characters leave. -/
def number : CodePoint → Nat
  | char c => c.toNat
  | surrogate half => firstSurrogate + half

/-- The code point of a number; beyond the last one there is only the null character. -/
def ofNumber (n : Nat) : CodePoint :=
  if h : firstSurrogate ≤ n ∧ n < firstSurrogate + 0x800 then
    surrogate ⟨n - firstSurrogate, by omega⟩
  else char (Char.ofNat n)

def isSurrogate : CodePoint → Bool
  | char _ => false
  | surrogate _ => true

/-- Applies a function on characters; a half stays. -/
def map (f : Char → Char) : CodePoint → CodePoint
  | char c => char (f c)
  | surrogate half => surrogate half

/-! ## Bytes -/

/-- A half that stands for a single byte. -/
def isRawByte (c : CodePoint) : Bool := 0xDC80 ≤ c.number && c.number ≤ 0xDCFF

/-- How many bytes a code point takes in UTF-8. -/
def byteCount : CodePoint → Nat
  | char c => c.utf8Size
  | surrogate half => if isRawByte (surrogate half) then 1 else 3

end CodePoint

end GeoPattern
