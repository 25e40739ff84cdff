import Mathlib.Algebra.Ring.Nat
import Mathlib.Data.Nat.Size
import Mathlib.Tactic.Ring

/-!
# Compact targets

A number in floating form with base 256: three leading bytes and an exponent
in one word of 32 bits.  The highest bit of the leading bytes is a sign, so a
number that would set it takes one leading byte less and an exponent that is
one higher.
-/

namespace YiimpStratum.CompactTarget

/-! ## Leading bytes -/

/-- The number of bytes that a number takes. -/
def significantBytes (number : Nat) : Nat :=
  (Nat.size number + 7) / 8

/-- The three leading bytes; zeros are behind a shorter number. -/
def leading (number : Nat) : Nat :=
  number * 256 ^ 3 / 256 ^ significantBytes number

/-- The compact form: the sign bit is clear. -/
def getCompact (number : Nat) : Nat :=
  if leading number < 2 ^ 23 then
    significantBytes number * 2 ^ 24 + leading number
  else
    (significantBytes number + 1) * 2 ^ 24 + leading number / 256

theorem significantBytes_le_iff {number count : Nat} :
    significantBytes number ≤ count ↔ number < 256 ^ count := by
  have power : 256 ^ count = 2 ^ (8 * count) := by
    rw [pow_mul]
    rfl
  rw [power, ← Nat.size_le, significantBytes]
  omega

theorem significantBytes_eq_iff {number count : Nat} :
    significantBytes number = count + 1 ↔
      256 ^ count ≤ number ∧ number < 256 ^ (count + 1) := by
  rw [← significantBytes_le_iff, ← Nat.not_lt, ← significantBytes_le_iff]
  omega

theorem lt_pow_significantBytes (number : Nat) :
    number < 256 ^ significantBytes number :=
  significantBytes_le_iff.mp le_rfl

theorem leading_lt (number : Nat) : leading number < 2 ^ 24 := by
  have power : (2 : Nat) ^ 24 = 256 ^ 3 := rfl
  rw [leading, power,
    Nat.div_lt_iff_lt_mul (Nat.pow_pos (by decide)), Nat.mul_comm]
  exact Nat.mul_lt_mul_of_pos_left (lt_pow_significantBytes number)
    (by decide)

/-- A short number is shifted up. -/
theorem leading_of_le {number : Nat} (short : significantBytes number ≤ 3) :
    leading number = number * 256 ^ (3 - significantBytes number) := by
  have split :
      (256 : Nat) ^ 3 =
        256 ^ (3 - significantBytes number) *
          256 ^ significantBytes number := by
    rw [← pow_add, Nat.sub_add_cancel short]
  rw [leading, split, ← Nat.mul_assoc,
    Nat.mul_div_cancel _ (Nat.pow_pos (by decide))]

/-- A long number is shifted down. -/
theorem leading_of_lt {number : Nat} (long : 3 < significantBytes number) :
    leading number = number / 256 ^ (significantBytes number - 3) := by
  have split :
      256 ^ significantBytes number =
        (256 : Nat) ^ 3 * 256 ^ (significantBytes number - 3) := by
    rw [← pow_add]
    congr 1
    omega
  rw [leading, split, Nat.mul_comm number,
    Nat.mul_div_mul_left _ _ (by decide)]

/-! ## Canonical forms -/

/-- The bytes that a mantissa takes are found again. -/
theorem leading_scaled {mantissa count : Nat}
    (lower : 256 ^ count ≤ mantissa) (upper : mantissa < 256 ^ (count + 1))
    (short : count < 3) (shift : Nat) :
    significantBytes (mantissa * 256 ^ shift) = count + shift + 1 ∧
      leading (mantissa * 256 ^ shift) = mantissa * 256 ^ (2 - count) := by
  have positive : 0 < 256 ^ shift := Nat.pow_pos (by decide)
  have size :
      significantBytes (mantissa * 256 ^ shift) = count + shift + 1 := by
    rw [significantBytes_eq_iff, Nat.add_right_comm, pow_add, pow_add]
    exact ⟨Nat.mul_le_mul_right _ lower,
      Nat.mul_lt_mul_of_pos_right upper positive⟩
  refine ⟨size, ?_⟩
  have product :
      mantissa * 256 ^ shift * 256 ^ 3 =
        mantissa * 256 ^ (2 - count) * 256 ^ (count + shift + 1) := by
    rw [Nat.mul_assoc, Nat.mul_assoc, ← pow_add, ← pow_add]
    congr 2
    omega
  rw [leading, size, product,
    Nat.mul_div_cancel _ (Nat.pow_pos (by decide))]

/-- A canonical exponent and mantissa are found again. -/
theorem getCompact_scaled {exponent mantissa : Nat} (large : 3 ≤ exponent)
    (lower : 2 ^ 15 ≤ mantissa) (upper : mantissa < 2 ^ 23) :
    getCompact (mantissa * 256 ^ (exponent - 3)) =
      exponent * 2 ^ 24 + mantissa := by
  rcases Nat.lt_or_ge mantissa (2 ^ 16) with two | three
  · obtain ⟨size, bytes⟩ :=
      leading_scaled (by omega : 256 ^ 1 ≤ mantissa)
        (by omega : mantissa < 256 ^ (1 + 1)) (by decide) (exponent - 3)
    have raised : 1 + (exponent - 3) + 1 + 1 = exponent := by omega
    rw [getCompact, bytes, size, if_neg (by omega), raised, pow_one,
      Nat.mul_div_cancel _ (by decide)]
  · obtain ⟨size, bytes⟩ :=
      leading_scaled (by omega : 256 ^ 2 ≤ mantissa)
        (by omega : mantissa < 256 ^ (2 + 1)) (by decide) (exponent - 3)
    have same : 2 + (exponent - 3) + 1 = exponent := by omega
    rw [getCompact, bytes, size, if_pos (by omega), same]
    omega

end YiimpStratum.CompactTarget
