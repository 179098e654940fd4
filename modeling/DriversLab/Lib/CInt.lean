import Mathlib.Tactic.Common
import Mathlib.Data.Int.Basic
import Mathlib.Algebra.Ring.Int.Defs
import Mathlib.Algebra.Group.Nat.Defs

/-!
# Lib.CInt — conversions between the C integer types

The values of the C integer types are integers; a conversion to a type of `w`
bits keeps the value modulo `2 ^ w`. Only the conversions are defined here: an
operation that stays in range needs none.
-/

namespace CInt

/-- Conversion to `int` (32-bit two's complement). -/
def toInt (z : ℤ) : ℤ := (z + 2 ^ 31) % 2 ^ 32 - 2 ^ 31

/-- Conversion to `unsigned int`. -/
def toUInt (z : ℤ) : ℤ := z % 2 ^ 32

/-- Conversion to `long`, `long long` and `loff_t`. -/
def toLong (z : ℤ) : ℤ := (z + 2 ^ 63) % 2 ^ 64 - 2 ^ 63

/-- Conversion to `unsigned long`. -/
def toULong (z : ℤ) : ℤ := z % 2 ^ 64

/-- Conversion to `short`. -/
def toShort (z : ℤ) : ℤ := (z + 2 ^ 15) % 2 ^ 16 - 2 ^ 15

/-- Conversion to `__u16`, as a natural number. -/
def toU16 (z : ℤ) : ℕ := (z % 2 ^ 16).toNat

theorem toInt_range (z : ℤ) : -2 ^ 31 ≤ toInt z ∧ toInt z < 2 ^ 31 := by
  unfold toInt; omega

theorem toInt_of_range {z : ℤ} (hl : -2 ^ 31 ≤ z) (hu : z < 2 ^ 31) : toInt z = z := by
  unfold toInt; omega

theorem toUInt_range (z : ℤ) : 0 ≤ toUInt z ∧ toUInt z < 2 ^ 32 := by
  unfold toUInt; omega

theorem toUInt_of_range {z : ℤ} (hl : 0 ≤ z) (hu : z < 2 ^ 32) : toUInt z = z := by
  unfold toUInt; omega

/-- The detour through `int` is invisible to `unsigned int`. -/
@[simp] theorem toUInt_toInt (z : ℤ) : toUInt (toInt z) = toUInt z := by
  unfold toUInt toInt; omega

/-- The detour through `int` is invisible to a 16-bit field. -/
@[simp] theorem toU16_toInt (z : ℤ) : toU16 (toInt z) = toU16 z := by
  unfold toU16 toInt; omega

/-- A non-negative value survives the conversion to 16 bits exactly when it
fits. -/
theorem toU16_eq_self_iff {z : ℤ} (h : 0 ≤ z) : (toU16 z : ℤ) = z ↔ z < 2 ^ 16 := by
  unfold toU16; omega

theorem toShort_of_range {z : ℤ} (hl : -2 ^ 15 ≤ z) (hu : z < 2 ^ 15) : toShort z = z := by
  unfold toShort; omega

theorem toLong_range (z : ℤ) : -2 ^ 63 ≤ toLong z ∧ toLong z < 2 ^ 63 := by
  unfold toLong; omega

theorem toLong_of_range {z : ℤ} (hl : -2 ^ 63 ≤ z) (hu : z < 2 ^ 63) : toLong z = z := by
  unfold toLong; omega

end CInt
