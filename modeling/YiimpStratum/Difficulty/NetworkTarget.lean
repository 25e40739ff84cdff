import Mathlib.Logic.Function.Iterate
import YiimpStratum.Util.Difficulty

/-!
# Network targets and the block test

`client_do_submit` hands a share to the daemon when its comparison value is at
most the one of the network difficulty.  The first is computed on the scale
of `target_to_diff_equi`, the second on the scale of `powLimit`.

The closed form of both sides shows how far they are apart.  A hash that meets
the network target passes the test exactly when its window also lies below the
target scaled by `0xffff / 0x0f0f0f`, or the scaled target is below one.
-/

namespace YiimpStratum.Difficulty

open YiimpStratum.Util

/-! ## Compact network targets -/

/-- A compact network target with a positive mantissa and a clear sign bit. -/
structure CompactBits where
  exponent : Nat
  mantissa : Nat
  exponentLower : 4 ≤ exponent
  exponentUpper : exponent ≤ 32
  mantissaPositive : 1 ≤ mantissa
  mantissaUpper : mantissa ≤ 0x7fffff

namespace CompactBits

/-- The 32-bit word of a compact target. -/
def word (bits : CompactBits) : Nat :=
  bits.exponent <<< 24 ||| bits.mantissa

/-- The 256-bit target of a compact target. -/
def target (bits : CompactBits) : Nat :=
  bits.mantissa * 256 ^ (bits.exponent - 3)

theorem word_eq (bits : CompactBits) :
    bits.word = bits.exponent * 2 ^ 24 + bits.mantissa := by
  have upper := bits.mantissaUpper
  rw [word, ← Nat.shiftLeft_add_eq_or_of_lt (by omega), Nat.shiftLeft_eq]

theorem word_exponent (bits : CompactBits) :
    (bits.word >>> 24) &&& 0xff = bits.exponent := by
  have upper := bits.mantissaUpper
  have exponentUpper := bits.exponentUpper
  have mask : (0xff : Nat) = 2 ^ 8 - 1 := rfl
  rw [mask, Nat.and_two_pow_sub_one_eq_mod, word_eq,
    Nat.shiftRight_eq_div_pow]
  omega

theorem word_mantissa (bits : CompactBits) :
    bits.word &&& 0x00ffffff = bits.mantissa := by
  have upper := bits.mantissaUpper
  have mask : (0x00ffffff : Nat) = 2 ^ 24 - 1 := rfl
  rw [mask, Nat.and_two_pow_sub_one_eq_mod, word_eq]
  omega

end CompactBits

/-! ## The comparison value of the network difficulty -/

/-- The divisor of the scale of `nbits_to_diff_equi` at an exponent. -/
def powLimitWeight (bits : CompactBits) : Nat :=
  0x0f0f0f * 256 ^ (32 - bits.exponent)

theorem powLimitWeight_pos (bits : CompactBits) :
    0 < powLimitWeight bits :=
  Nat.mul_pos (by decide) (Nat.pow_pos (by decide))

theorem nbitsToDiffEqui_word (bits : CompactBits) :
    nbitsToDiffEqui bits.word =
      (powLimitWeight bits : ℚ) / (bits.mantissa : ℚ) := by
  have amount : (powLimit >>> 24) &&& 0xff = 32 := by decide
  have limit : powLimit &&& 0x00ffffff = 0x0f0f0f := by decide
  have noLowering : bits.exponent - 32 = 0 :=
    Nat.sub_eq_zero_of_le bits.exponentUpper
  simp only [nbitsToDiffEqui, bits.word_exponent, bits.word_mantissa,
    amount, limit, noLowering, Function.iterate_zero, id_eq]
  rw [mul_right_iterate, powLimitWeight]
  push_cast
  ring

theorem diffToTarget_network (bits : CompactBits) :
    diffToTarget equihashDiffMultiplier (nbitsToDiffEqui bits.word) =
      0xffff * 2 ^ 32 * bits.mantissa / powLimitWeight bits := by
  have mantissaNonzero : (bits.mantissa : ℚ) ≠ 0 := by
    have positive := bits.mantissaPositive
    have nonzero : bits.mantissa ≠ 0 := by omega
    exact_mod_cast nonzero
  have weightNonzero : (powLimitWeight bits : ℚ) ≠ 0 := by
    have nonzero := Nat.ne_of_gt (powLimitWeight_pos bits)
    exact_mod_cast nonzero
  have quotient :
      (0x0000ffff00000000 : ℚ) * 1 /
          ((powLimitWeight bits : ℚ) / (bits.mantissa : ℚ)) =
        ((0xffff * 2 ^ 32 * bits.mantissa : Nat) : ℚ) /
          ((powLimitWeight bits : Nat) : ℚ) := by
    push_cast
    field_simp
  rw [nbitsToDiffEqui_word, diffToTarget,
    if_neg (div_ne_zero weightNonzero mantissaNonzero),
    equihashDiffMultiplier, quotient, truncate, Nat.floor_div_eq_div]

/-! ## The block test -/

/-- The test of `client_do_submit` before the call of `coind_submit`. -/
def handsToDaemon (bits : CompactBits) (hash : Bytes32) : Prop :=
  hashInt hash ≤ coinTarget bits.word

instance (bits : CompactBits) (hash : Bytes32) :
    Decidable (handsToDaemon bits hash) :=
  inferInstanceAs (Decidable (_ ≤ _))

/-- The hash meets the network target as a 256-bit number. -/
def meetsNetworkTarget (bits : CompactBits) (hash : Bytes32) : Prop :=
  littleEndian hash.toList ≤ bits.target

instance (bits : CompactBits) (hash : Bytes32) :
    Decidable (meetsNetworkTarget bits hash) :=
  inferInstanceAs (Decidable (_ ≤ _))

/-- The test in integers: the two scales, or the replacement of zero. -/
theorem handsToDaemon_iff (bits : CompactBits) (hash : Bytes32) :
    handsToDaemon bits hash ↔
      powLimitWeight bits * equiWindow hash ≤ 0xffff * 2 ^ 16 * bits.mantissa ∨
        0xffff * 2 ^ 32 * bits.mantissa < powLimitWeight bits := by
  have weightPos := powLimitWeight_pos bits
  have window := equiWindow_lt hash
  rw [handsToDaemon, hashInt_eq, coinTarget, diffToTarget_network]
  by_cases small : 0xffff * 2 ^ 32 * bits.mantissa < powLimitWeight bits
  · have zero :
        0xffff * 2 ^ 32 * bits.mantissa / powLimitWeight bits = 0 :=
      Nat.div_eq_of_lt small
    simp only [zero, if_true, small, or_true, iff_true]
    omega
  · have nonzero :
        0xffff * 2 ^ 32 * bits.mantissa / powLimitWeight bits ≠ 0 := by
      rw [Nat.ne_zero_iff_zero_lt]
      exact Nat.div_pos (Nat.le_of_not_lt small) weightPos
    simp only [nonzero, if_false, small, or_false]
    rw [Nat.le_div_iff_mul_le weightPos]
    have scaled :
        equiWindow hash * 2 ^ 16 * powLimitWeight bits =
          2 ^ 16 * (powLimitWeight bits * equiWindow hash) := by
      ring
    have scaledTarget :
        0xffff * 2 ^ 32 * bits.mantissa =
          2 ^ 16 * (0xffff * 2 ^ 16 * bits.mantissa) := by
      ring
    rw [scaled, scaledTarget]
    exact Nat.mul_le_mul_left_iff (by decide)

/--
No block is lost at a network target and a hash exactly when the hash misses
the target, or its window also meets the target scaled by `0xffff / 0x0f0f0f`,
or that scaled target is below one.
-/
theorem no_block_lost_iff (bits : CompactBits) (hash : Bytes32) :
    (meetsNetworkTarget bits hash → handsToDaemon bits hash) ↔
      bits.target < littleEndian hash.toList ∨
        powLimitWeight bits * equiWindow hash ≤
            0xffff * 2 ^ 16 * bits.mantissa ∨
          0xffff * 2 ^ 32 * bits.mantissa < powLimitWeight bits := by
  rw [handsToDaemon_iff, meetsNetworkTarget, ← Nat.not_lt, imp_iff_not_or,
    not_not]

/-! ## A lost block -/

/-- The network target `1f0f0f0f`. -/
def sampleBits : CompactBits where
  exponent := 31
  mantissa := 0x0f0f0f
  exponentLower := by decide
  exponentUpper := by decide
  mantissaPositive := by decide
  mantissaUpper := by decide

/-- The block hash that equals the network target `1f0f0f0f`. -/
def sampleHash : Bytes32 :=
  Vector.replicate 28 (0 : UInt8) ++ #v[(0x0f : UInt8), 0x0f, 0x0f, 0]

/-- A block hash equal to the network target is not handed to the daemon. -/
theorem block_lost_at_sampleHash :
    meetsNetworkTarget sampleBits sampleHash ∧
      ¬ handsToDaemon sampleBits sampleHash := by
  constructor
  · decide
  · rw [handsToDaemon_iff]
    decide

end YiimpStratum.Difficulty
