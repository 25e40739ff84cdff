import Mathlib.Tactic.IntervalCases
import YiimpStratum.Util.Difficulty

/-!
# Announced and enforced share targets

A miner is sent the 256-bit target of `diff_to_target_equi`; a share is
accepted by comparing the comparison value of its hash with that of the client
difficulty.  Both are compared here on the leading 40 bits of a hash, the bytes
31 to 27.

The acceptance test reads only the window over the bytes 30 to 27, and the
filling loop raises the announced target by up to 255 units of the window.
Soundness and completeness hold exactly outside these two effects; below a
difficulty of one the target is written past its end.
-/

namespace YiimpStratum.Difficulty

open YiimpStratum
open YiimpStratum.Util

/-! ## Little-endian numbers -/

theorem littleEndian_replicate_ff (count : Nat) :
    littleEndian (List.replicate count 0xff) = 256 ^ count - 1 := by
  induction count with
  | zero =>
      rfl
  | succ count ih =>
      have positive : 0 < 256 ^ count := Nat.pow_pos (by decide)
      have digit : UInt8.toNat 0xff = 255 := rfl
      rw [List.replicate_succ, littleEndian_cons, ih, digit, pow_succ]
      omega

theorem littleEndian_wordBytes (word : Nat) :
    littleEndian (wordBytes word) = word % 2 ^ 32 := by
  have width : (256 : Nat) ^ 4 = 2 ^ 32 := by decide
  rw [littleEndian, wordBytes, List.reverse_reverse,
    BigEndian.value_encode, width]

@[simp]
theorem length_wordBytes (word : Nat) : (wordBytes word).length = 4 := by
  simp [wordBytes]

/-- The most significant byte of a hash, which the share test does not read. -/
def topByte (hash : Bytes32) : UInt8 :=
  hash[31]

/-- The number formed by the five most significant bytes. -/
def leading40 (bytes : List UInt8) : Nat :=
  BigEndian.value (bytes.reverse.take 5)

theorem leading40_eq
    {bytes : List UInt8} (length : bytes.length = 32) :
    leading40 bytes = littleEndian bytes / 256 ^ 27 := by
  rw [leading40, BigEndian.value_take, List.length_reverse, length]
  rfl

theorem leading40_hash (hash : Bytes32) :
    leading40 hash.toList =
      (topByte hash).toNat * 2 ^ 32 + equiWindow hash := by
  have digits :
      hash.toList.reverse.take 5 =
        [hash[31], hash[30], hash[29], hash[28], hash[27]] := by
    apply List.ext_getElem
    · simp
    · intro index inside outside
      have small : index < 5 := by
        simpa using outside
      interval_cases index <;> simp
  have weight :
      256 ^ [hash[30], hash[29], hash[28], hash[27]].length = 2 ^ 32 := by
    simp only [List.length_cons, List.length_nil]
    norm_num
  rw [leading40, digits, BigEndian.value_cons, weight, equiWindow_eq,
    topByte]

/-! ## The filling loop -/

theorem length_fillZeros (count : Nat) (bytes : List UInt8) :
    (fillZeros count bytes).length = bytes.length := by
  induction count generalizing bytes with
  | zero =>
      rfl
  | succ count ih =>
      cases bytes with
      | nil =>
          rfl
      | cons byte bytes =>
          rw [fillZeros]
          split
          · simp [ih]
          · rfl

theorem fillZeros_replicate_zero
    (zeros count : Nat) (bytes : List UInt8) :
    fillZeros (zeros + count) (List.replicate zeros 0 ++ bytes) =
      List.replicate zeros 0xff ++ fillZeros count bytes := by
  induction zeros with
  | zero =>
      simp
  | succ zeros ih =>
      rw [Nat.succ_add, List.replicate_succ, List.cons_append, fillZeros,
        ih]
      rfl

/-- When the loop meets a byte that is not zero, the upper bytes stay. -/
theorem littleEndian_fillZeros
    (count : Nat) (bytes : List UInt8)
    (nonzero : bytes.take (count + 1) ≠ List.replicate (count + 1) 0) :
    littleEndian (fillZeros (count + 1) bytes) / 256 ^ count =
      littleEndian bytes / 256 ^ count := by
  induction count generalizing bytes with
  | zero =>
      cases bytes with
      | nil =>
          rfl
      | cons byte bytes =>
          have byteNonzero : (byte == 0) = false := by
            simpa using nonzero
          rw [fillZeros, byteNonzero]
          rfl
  | succ count ih =>
      cases bytes with
      | nil =>
          rfl
      | cons byte bytes =>
          by_cases zero : byte = 0
          · subst byte
            have tailNonzero :
                bytes.take (count + 1) ≠ List.replicate (count + 1) 0 := by
              intro allZero
              apply nonzero
              rw [List.take_succ_cons, allZero, ← List.replicate_succ]
            have unfolded :
                fillZeros (count + 1 + 1) (0 :: bytes) =
                  0xff :: fillZeros (count + 1) bytes :=
              rfl
            have digit : UInt8.toNat 0xff = 255 := rfl
            have dropByte (low rest : Nat) (small : low < 256) :
                (low + 256 * rest) / 256 ^ (count + 1) =
                  rest / 256 ^ count := by
              rw [pow_succ', ← Nat.div_div_eq_div_mul,
                Nat.add_mul_div_left _ _ (by decide),
                Nat.div_eq_of_lt small, Nat.zero_add]
            rw [unfolded, littleEndian_cons, littleEndian_cons, digit,
              dropByte _ _ (by decide), dropByte _ _ (by decide),
              ih bytes tailNonzero]
          · have byteNonzero : (byte == 0) = false := by
              simpa using zero
            rw [fillZeros, byteNonzero]
            rfl

/-! ## The target of a client difficulty -/

/-- The largest window that passes the acceptance test. -/
def windowLimit (difficulty : ℚ) : Nat :=
  ⌊(0xffff0000 : ℚ) / difficulty⌋₊

/-- The lower word of the target above difficulty one. -/
def targetLowWord (difficulty : ℚ) : Nat :=
  ⌊(0xffff * 2 ^ 40 : ℚ) / difficulty⌋₊ % 2 ^ 32

namespace ClientDifficulty

open YiimpStratum.Util.ClientDifficulty

theorem value_le (difficulty : ClientDifficulty) :
    difficulty.value ≤ 4294967296 := by
  have positive := difficulty.positive
  have lower := difficulty.aboveMin
  rw [diffToTarget, if_neg (ne_of_gt positive), truncate,
    equihashDiffMultiplier,
    Nat.le_floor_iff (by positivity), le_div_iff₀ positive] at lower
  have minimum : ((yaampMindiff : Nat) : ℚ) = 2147483648 := by
    norm_num [yaampMindiff]
  rw [minimum] at lower
  linarith

end ClientDifficulty

theorem hashInt_le_userTarget_iff
    (difficulty : ClientDifficulty) (hash : Bytes32) :
    hashInt hash ≤ diffToTarget equihashDiffMultiplier difficulty.value ↔
      equiWindow hash ≤ windowLimit difficulty.value := by
  have positive := difficulty.positive
  have scaled :
      (0x0000ffff00000000 : ℚ) * 1 / difficulty.value =
        0xffff0000 / difficulty.value * 2 ^ 16 := by
    field_simp
    norm_num
  rw [hashInt_eq, diffToTarget, if_neg (ne_of_gt positive), truncate,
    equihashDiffMultiplier, scaled, windowLimit,
    Nat.le_floor_iff (by positivity), Nat.le_floor_iff (by positivity)]
  push_cast
  exact mul_le_mul_iff_left₀ (by norm_num)

/-! ### Difficulties up to one -/

theorem windowLimit_ge_of_le_one
    {difficulty : ℚ} (positive : 0 < difficulty) (small : difficulty ≤ 1) :
    0xffff0000 ≤ windowLimit difficulty := by
  rw [windowLimit, Nat.le_floor_iff (by positivity), le_div_iff₀ positive]
  push_cast
  linarith

theorem equiStores_of_le_one
    {difficulty : ℚ} (positive : 0 < difficulty) (small : difficulty ≤ 1) :
    equiStores difficulty =
      [(7, windowLimit difficulty / 256 % 2 ^ 32),
        (8, windowLimit difficulty >>> 40 % 2 ^ 32)] := by
  have scaled : scaleDifficulty 6 difficulty = (6, difficulty) := by
    rw [scaleDifficulty, if_neg (not_lt.mpr small)]
  have limit :
      truncate (4294901760 / difficulty) = windowLimit difficulty := by
    rw [truncate, windowLimit]
  have nonzero : ¬ (windowLimit difficulty = 0 ∧ True) := by
    have lower := windowLimit_ge_of_le_one positive small
    rintro ⟨zero, -⟩
    omega
  rw [equiStores]
  simp only [scaled, limit]
  rw [if_neg nonzero, Nat.shiftRight_eq_div_pow]

theorem diffToTargetEqui_of_le_one
    {difficulty : ℚ} (positive : 0 < difficulty) (small : difficulty ≤ 1) :
    diffToTargetEqui difficulty =
      List.replicate 28 0xff ++
        wordBytes (windowLimit difficulty / 256 % 2 ^ 32) := by
  have bytes (word other : Nat) :
      (([(7, word), (8, other)].foldl
        (fun words store => words.set store.1 store.2)
        (List.replicate 8 0)).flatMap wordBytes) =
          List.replicate 28 0 ++ wordBytes word := by
    rfl
  rw [diffToTargetEqui, equiStores_of_le_one positive small,
    if_neg (by simp), bytes]
  exact fillZeros_replicate_zero 28 0 _

theorem leading40_target_of_le_one
    {difficulty : ℚ} (positive : 0 < difficulty) (small : difficulty ≤ 1) :
    leading40 (diffToTargetEqui difficulty) =
      windowLimit difficulty / 256 % 2 ^ 32 * 256 + 255 := by
  rw [leading40_eq, diffToTargetEqui_of_le_one positive small,
    littleEndian_append, littleEndian_replicate_ff,
    littleEndian_wordBytes, List.length_replicate, Nat.mod_mod]
  · omega
  · rw [diffToTargetEqui_of_le_one positive small]
    simp

/-! ### Difficulties above one -/

/-- The variable `m` of `diff_to_target_equi` above difficulty one. -/
def fineLimit (difficulty : ℚ) : Nat :=
  ⌊(0xffff0000 * 2 ^ 32 : ℚ) / difficulty⌋₊

theorem fineLimit_div (difficulty : ℚ) :
    fineLimit difficulty / 2 ^ 32 = windowLimit difficulty := by
  have split :
      (0xffff0000 : ℚ) / difficulty =
        0xffff0000 * 2 ^ 32 / difficulty / ((2 ^ 32 : Nat) : ℚ) := by
    push_cast
    ring
  rw [windowLimit, split, Nat.floor_div_natCast, fineLimit]

theorem targetLowWord_eq (difficulty : ℚ) :
    targetLowWord difficulty = fineLimit difficulty / 256 % 2 ^ 32 := by
  have split :
      (0xffff * 2 ^ 40 : ℚ) / difficulty =
        0xffff0000 * 2 ^ 32 / difficulty / ((256 : Nat) : ℚ) := by
    push_cast
    ring
  rw [targetLowWord, split, Nat.floor_div_natCast, fineLimit]

theorem fineLimit_lt {difficulty : ℚ} (large : 1 < difficulty) :
    fineLimit difficulty < 0xffff0000 * 2 ^ 32 := by
  have positive : 0 < difficulty := by linarith
  rw [fineLimit, Nat.floor_lt (by positivity), div_lt_iff₀ positive]
  push_cast
  nlinarith

theorem windowLimit_lt {difficulty : ℚ} (large : 1 < difficulty) :
    windowLimit difficulty < 0xffff0000 := by
  have bound := fineLimit_lt large
  rw [← fineLimit_div]
  omega

theorem equiStores_of_one_lt
    {difficulty : ℚ} (large : 1 < difficulty)
    (bounded : difficulty ≤ 4294967296) :
    equiStores difficulty =
      [(6, targetLowWord difficulty), (7, fineLimit difficulty / 2 ^ 40)] := by
  have positive : 0 < difficulty := by linarith
  have stops : ¬ 1 < difficulty / 4294967296 := by
    rw [not_lt, div_le_one (by norm_num)]
    exact bounded
  have scaled :
      scaleDifficulty 6 difficulty = (5, difficulty / 4294967296) := by
    rw [scaleDifficulty, if_pos large, scaleDifficulty, if_neg stops]
  have limit :
      truncate (4294901760 / (difficulty / 4294967296)) =
        fineLimit difficulty := by
    have exactQuotient :
        (4294901760 : ℚ) / (difficulty / 4294967296) =
          0xffff0000 * 2 ^ 32 / difficulty := by
      field_simp
      norm_num
    rw [truncate, exactQuotient, fineLimit]
  have upperFits : fineLimit difficulty / 2 ^ 40 < 2 ^ 32 := by
    have bound := fineLimit_lt large
    omega
  rw [equiStores]
  simp only [scaled, limit]
  rw [if_neg (by omega), Nat.shiftRight_eq_div_pow,
    Nat.shiftRight_eq_div_pow, Nat.mod_eq_of_lt upperFits,
    targetLowWord_eq]

theorem diffToTargetEqui_of_one_lt
    {difficulty : ℚ} (large : 1 < difficulty)
    (bounded : difficulty ≤ 4294967296) :
    diffToTargetEqui difficulty =
      List.replicate 24 0xff ++
        fillZeros 4
          (wordBytes (targetLowWord difficulty) ++
            wordBytes (fineLimit difficulty / 2 ^ 40)) := by
  have bytes (low high : Nat) :
      (([(6, low), (7, high)].foldl
        (fun words store => words.set store.1 store.2)
        (List.replicate 8 0)).flatMap wordBytes) =
          List.replicate 24 0 ++ (wordBytes low ++ wordBytes high) := by
    rfl
  rw [diffToTargetEqui, equiStores_of_one_lt large bounded,
    if_neg (by simp), bytes]
  exact fillZeros_replicate_zero 24 4 _

/-- With an empty lower word the filling loop runs up to byte 27. -/
theorem diffToTargetEqui_of_lowWord_zero
    {difficulty : ℚ} (large : 1 < difficulty)
    (bounded : difficulty ≤ 4294967296)
    (empty : targetLowWord difficulty = 0) :
    diffToTargetEqui difficulty =
      List.replicate 28 0xff ++
        wordBytes (fineLimit difficulty / 2 ^ 40) := by
  have zeroWord : wordBytes 0 = List.replicate 4 0 := by
    decide
  rw [diffToTargetEqui_of_one_lt large bounded, empty, zeroWord,
    fillZeros_replicate_zero 4 0]
  rfl

theorem length_diffToTargetEqui
    (difficulty : ClientDifficulty) :
    (diffToTargetEqui difficulty.value).length = 32 := by
  by_cases large : 1 < difficulty.value
  · rw [diffToTargetEqui_of_one_lt large
      (ClientDifficulty.value_le difficulty)]
    simp [length_fillZeros]
  · rw [diffToTargetEqui_of_le_one difficulty.positive (not_lt.mp large)]
    simp

/--
Above difficulty one the leading 40 bits of the target are the largest
accepted window, raised by 255 when the filling loop reaches byte 27.
-/
theorem leading40_target_of_one_lt
    (difficulty : ClientDifficulty) (large : 1 < difficulty.value) :
    leading40 (diffToTargetEqui difficulty.value) =
      windowLimit difficulty.value +
        if targetLowWord difficulty.value = 0 then 255 else 0 := by
  have bounded := ClientDifficulty.value_le difficulty
  have limit := fineLimit_lt large
  have window := fineLimit_div difficulty.value
  have low := targetLowWord_eq difficulty.value
  rw [leading40_eq (length_diffToTargetEqui difficulty)]
  by_cases empty : targetLowWord difficulty.value = 0
  · rw [diffToTargetEqui_of_lowWord_zero large bounded empty,
      littleEndian_append, littleEndian_replicate_ff,
      littleEndian_wordBytes, List.length_replicate, if_pos empty]
    omega
  · have lowFits : targetLowWord difficulty.value < 2 ^ 32 :=
      Nat.mod_lt _ (by decide)
    have nonzero :
        (wordBytes (targetLowWord difficulty.value) ++
            wordBytes (fineLimit difficulty.value / 2 ^ 40)).take 4 ≠
          List.replicate 4 0 := by
      intro allZero
      rw [List.take_left' (length_wordBytes _)] at allZero
      have value :=
        littleEndian_wordBytes (targetLowWord difficulty.value)
      rw [allZero, Nat.mod_eq_of_lt lowFits] at value
      exact empty value.symm
    have filled :
        littleEndian
              (fillZeros 4
                (wordBytes (targetLowWord difficulty.value) ++
                  wordBytes (fineLimit difficulty.value / 2 ^ 40))) /
            256 ^ 3 =
          (targetLowWord difficulty.value % 2 ^ 32 +
              256 ^ 4 * (fineLimit difficulty.value / 2 ^ 40 % 2 ^ 32)) /
            256 ^ 3 := by
      rw [littleEndian_fillZeros 3 _ nonzero, littleEndian_append,
        littleEndian_wordBytes, littleEndian_wordBytes, length_wordBytes]
    rw [diffToTargetEqui_of_one_lt large bounded, littleEndian_append,
      littleEndian_replicate_ff, List.length_replicate, if_neg empty]
    omega

end YiimpStratum.Difficulty
