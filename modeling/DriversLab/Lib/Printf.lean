import DriversLab.Lib.CInt
import Mathlib.Data.List.Basic

/-!
# Lib.Printf — integers in a field of a format

What `sprintf` puts out for `%0nu` and `%ni`. The width of a conversion is a minimum: a
number with more digits takes more room.

* `unsignedField`, `signedField`: the text;
* `unsignedField_length_iff`, `signedField_length_iff`: the values for which it has the width
  that the format says.
-/

namespace Printf

open CInt

/-- `%0nu` of an `int`: at least `width` digits of the value as an `unsigned int`. -/
def unsignedField (width : ℕ) (z : ℤ) : List Char :=
  (Nat.toDigits 10 (toUInt z).toNat).leftpad width '0'

/-- `%i`. -/
def signedText (z : ℤ) : List Char :=
  if z < 0 then '-' :: Nat.toDigits 10 z.natAbs else Nat.toDigits 10 z.natAbs

/-- `%ni`: blanks in front, up to `width` characters. -/
def signedField (width : ℕ) (z : ℤ) : List Char := (signedText z).leftpad width ' '

/-- A text is as long as its field if it is no longer. -/
theorem leftpad_length_iff {width : ℕ} {fill : Char} {text : List Char} :
    (text.leftpad width fill).length = width ↔ text.length ≤ width := by
  rw [List.length_leftpad]
  omega

theorem le_unsignedField_length (width : ℕ) (z : ℤ) : width ≤ (unsignedField width z).length := by
  rw [unsignedField, List.length_leftpad]
  exact le_max_left _ _

/-- The text has the width of the field if the number has no more digits. -/
theorem unsignedField_length_iff {width : ℕ} (hw : 0 < width) (z : ℤ) :
    (unsignedField width z).length = width ↔ toUInt z < 10 ^ width := by
  have hnat := (toUInt_range z).1
  have hcast : (((10 : ℕ) ^ width : ℕ) : ℤ) = 10 ^ width := Int.natCast_pow 10 width
  rw [unsignedField, leftpad_length_iff, Nat.length_toDigits_le_iff (by decide) hw]
  omega

theorem signedText_length_le_iff {width : ℕ} (hw : 1 < width) (z : ℤ) :
    (signedText z).length ≤ width ↔ -10 ^ (width - 1) < z ∧ z < 10 ^ width := by
  have hcast : (((10 : ℕ) ^ width : ℕ) : ℤ) = 10 ^ width := Int.natCast_pow 10 width
  have hcast' : (((10 : ℕ) ^ (width - 1) : ℕ) : ℤ) = 10 ^ (width - 1) :=
    Int.natCast_pow 10 (width - 1)
  have hpos : 0 < 10 ^ width := Nat.pow_pos (by decide)
  have hpos' : 0 < 10 ^ (width - 1) := Nat.pow_pos (by decide)
  unfold signedText
  split
  · -- the sign takes one of the characters
    have hdigits : (Nat.toDigits 10 z.natAbs).length + 1 ≤ width ↔
        (Nat.toDigits 10 z.natAbs).length ≤ width - 1 := by omega
    rw [List.length_cons, hdigits, Nat.length_toDigits_le_iff (by decide) (by omega)]
    omega
  · rw [Nat.length_toDigits_le_iff (by decide) (by omega)]
    omega

theorem signedField_length_iff {width : ℕ} (hw : 1 < width) (z : ℤ) :
    (signedField width z).length = width ↔ -10 ^ (width - 1) < z ∧ z < 10 ^ width := by
  rw [signedField, leftpad_length_iff, signedText_length_le_iff hw]

end Printf
