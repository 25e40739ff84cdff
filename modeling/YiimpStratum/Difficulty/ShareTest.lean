import YiimpStratum.Difficulty.ShareTarget

/-!
# Soundness and completeness of the share test

For a client difficulty and a hash, the share test of `client_submit_equi` is
sound when an accepted hash does not exceed the announced target on its
leading 40 bits, and complete when a hash that meets the announced target is
accepted.  Both properties are characterised exactly, from the description of
the announced target in `ShareTarget`.
-/

namespace YiimpStratum.Difficulty

open YiimpStratum
open YiimpStratum.Util

/-! ## The two properties -/

/-- The target as the miner decodes it, most significant byte first. -/
def sentTarget (difficulty : ClientDifficulty) : List UInt8 :=
  binlify (clientSendDifficulty difficulty.value)

/-- The test `hash_int <= user_target`. -/
def passesUserTarget
    (difficulty : ClientDifficulty) (hash : Bytes32) : Prop :=
  hashInt hash ≤ diffToTarget equihashDiffMultiplier difficulty.value

/-- An accepted hash meets the announced target on its leading 40 bits. -/
def ShareSound (difficulty : ClientDifficulty) (hash : Bytes32) : Prop :=
  passesUserTarget difficulty hash →
    leading40 hash.toList ≤
      BigEndian.value ((sentTarget difficulty).take 5)

/--
The target is written inside its 8 words, and a hash that meets it is
accepted.
-/
def ShareComplete (difficulty : ClientDifficulty) (hash : Bytes32) : Prop :=
  (∀ store ∈ equiStores difficulty.value, store.1 < 8) ∧
    (littleEndian hash.toList ≤ BigEndian.value (sentTarget difficulty) →
      passesUserTarget difficulty hash)

theorem sentTarget_eq (difficulty : ClientDifficulty) :
    sentTarget difficulty =
      (diffToTargetEqui difficulty.value).reverse := by
  rw [sentTarget, clientSendDifficulty, stringBe_hexlify, binlify_hexlify]

theorem sentTarget_leading40 (difficulty : ClientDifficulty) :
    BigEndian.value ((sentTarget difficulty).take 5) =
      leading40 (diffToTargetEqui difficulty.value) := by
  rw [sentTarget_eq, leading40]

theorem sentTarget_value (difficulty : ClientDifficulty) :
    BigEndian.value (sentTarget difficulty) =
      littleEndian (diffToTargetEqui difficulty.value) := by
  rw [sentTarget_eq, littleEndian]

theorem passesUserTarget_iff
    (difficulty : ClientDifficulty) (hash : Bytes32) :
    passesUserTarget difficulty hash ↔
      equiWindow hash ≤ windowLimit difficulty.value :=
  hashInt_le_userTarget_iff difficulty hash

/-! ## Soundness -/

/--
The share test is sound exactly for the hashes it refuses, for the hashes
with an empty top byte above difficulty one, and up to difficulty one for the
hashes below the announced word with its low byte filled.
-/
theorem shareSound_iff
    (difficulty : ClientDifficulty) (hash : Bytes32) :
    ShareSound difficulty hash ↔
      windowLimit difficulty.value < equiWindow hash ∨
        (1 < difficulty.value ∧ topByte hash = 0) ∨
          (difficulty.value ≤ 1 ∧
            (topByte hash).toNat * 2 ^ 32 + equiWindow hash ≤
              windowLimit difficulty.value / 256 % 2 ^ 32 * 256 + 255) := by
  have emptyTop : topByte hash = 0 ↔ (topByte hash).toNat = 0 := by
    rw [← UInt8.toNat_inj]
    rfl
  rw [ShareSound, passesUserTarget_iff, sentTarget_leading40,
    leading40_hash, emptyTop]
  by_cases large : 1 < difficulty.value
  · have limit := windowLimit_lt large
    have target := leading40_target_of_one_lt difficulty large
    have notSmall : ¬ difficulty.value ≤ 1 := not_le.mpr large
    rw [target]
    simp only [large, notSmall, true_and, false_and, or_false]
    split
    · omega
    · omega
  · have small : difficulty.value ≤ 1 := not_lt.mp large
    rw [leading40_target_of_le_one difficulty.positive small]
    simp only [large, small, true_and, false_and, false_or]
    omega

/-! ## Completeness -/

/-- Above difficulty one a hash below the target is accepted or is raised. -/
theorem complete_of_one_lt
    (difficulty : ClientDifficulty) (hash : Bytes32)
    (large : 1 < difficulty.value) :
    (littleEndian hash.toList ≤
        littleEndian (diffToTargetEqui difficulty.value) →
      equiWindow hash ≤ windowLimit difficulty.value) ↔
      ¬ (targetLowWord difficulty.value = 0 ∧ (topByte hash).toNat = 0 ∧
        windowLimit difficulty.value < equiWindow hash ∧
          equiWindow hash ≤ windowLimit difficulty.value + 255) := by
  have target := leading40_target_of_one_lt difficulty large
  have bounded := ClientDifficulty.value_le difficulty
  have hashLeading := leading40_hash hash
  rw [leading40_eq (length_diffToTargetEqui difficulty)] at target
  rw [leading40_eq (by simp)] at hashLeading
  by_cases empty : targetLowWord difficulty.value = 0
  · have shape :=
      diffToTargetEqui_of_lowWord_zero large bounded empty
    have total :
        littleEndian (diffToTargetEqui difficulty.value) =
          256 ^ 28 - 1 +
            256 ^ 28 * (fineLimit difficulty.value / 2 ^ 40 % 2 ^ 32) := by
      rw [shape, littleEndian_append, littleEndian_replicate_ff,
        littleEndian_wordBytes, List.length_replicate]
    have limit := windowLimit_lt large
    rw [if_pos empty] at target
    constructor
    · rintro complete ⟨-, topZero, above, raised⟩
      have meets :
          littleEndian hash.toList ≤
            littleEndian (diffToTargetEqui difficulty.value) := by
        rw [total] at target ⊢
        omega
      exact absurd (complete meets) (not_le.mpr above)
    · intro notRaised meets
      have ordered := Nat.div_le_div_right (c := 256 ^ 27) meets
      rw [target, hashLeading] at ordered
      omega
  · rw [if_neg empty] at target
    constructor
    · rintro - ⟨emptyWord, -⟩
      exact empty emptyWord
    · intro _ meets
      have ordered := Nat.div_le_div_right (c := 256 ^ 27) meets
      rw [target, hashLeading] at ordered
      omega

/-- The target is written inside its words exactly above difficulty one. -/
theorem equiStores_inside_iff (difficulty : ClientDifficulty) :
    (∀ store ∈ equiStores difficulty.value, store.1 < 8) ↔
      1 < difficulty.value := by
  by_cases large : 1 < difficulty.value
  · rw [equiStores_of_one_lt large (ClientDifficulty.value_le difficulty)]
    simp [large]
  · rw [equiStores_of_le_one difficulty.positive (not_lt.mp large)]
    simp [large]

/--
The share test is complete exactly above difficulty one, outside the hashes
whose window lies among the 255 values by which the filling loop raises the
announced target.
-/
theorem shareComplete_iff
    (difficulty : ClientDifficulty) (hash : Bytes32) :
    ShareComplete difficulty hash ↔
      1 < difficulty.value ∧
        ¬ (targetLowWord difficulty.value = 0 ∧ topByte hash = 0 ∧
          windowLimit difficulty.value < equiWindow hash ∧
            equiWindow hash ≤ windowLimit difficulty.value + 255) := by
  have emptyTop : topByte hash = 0 ↔ (topByte hash).toNat = 0 := by
    rw [← UInt8.toNat_inj]
    rfl
  rw [ShareComplete, equiStores_inside_iff, passesUserTarget_iff,
    sentTarget_value, emptyTop]
  constructor
  · rintro ⟨large, complete⟩
    exact ⟨large, (complete_of_one_lt difficulty hash large).mp complete⟩
  · rintro ⟨large, notRaised⟩
    exact ⟨large, (complete_of_one_lt difficulty hash large).mpr notRaised⟩

/-! ## Failing difficulties -/

/-- The difficulty of the sample configuration. -/
def sampleDifficulty : ClientDifficulty where
  value := 1 / 200
  positive := by norm_num
  aboveMin := by
    norm_num [diffToTarget, truncate, yaampMindiff, equihashDiffMultiplier]
  belowMax := by
    norm_num [diffToTarget, truncate, yaampMaxdiff, equihashDiffMultiplier]

/-- The difficulty two. -/
def difficultyTwo : ClientDifficulty where
  value := 2
  positive := by norm_num
  aboveMin := by
    norm_num [diffToTarget, truncate, yaampMindiff, equihashDiffMultiplier]
  belowMax := by
    norm_num [diffToTarget, truncate, yaampMaxdiff, equihashDiffMultiplier]

/-- A hash whose only byte that is not zero is the most significant one. -/
def topByteHash : Bytes32 :=
  Vector.replicate 31 (0 : UInt8) ++ #v[(0xff : UInt8)]

/-- A hash one window above the acceptance limit of difficulty two. -/
def raisedHash : Bytes32 :=
  Vector.replicate 27 (0 : UInt8) ++
    #v[(0x01 : UInt8), 0x80, 0xff, 0x7f, 0x00]

theorem windowLimit_two : windowLimit 2 = 0x7fff8000 := by
  norm_num [windowLimit]

theorem targetLowWord_two : targetLowWord 2 = 0 := by
  norm_num [targetLowWord]

/--
At difficulty two, a hash with a large top byte passes the test although its
leading 40 bits exceed the announced target.
-/
theorem share_unsound_at_topByteHash :
    passesUserTarget difficultyTwo topByteHash ∧
      BigEndian.value ((sentTarget difficultyTwo).take 5) <
        leading40 topByteHash.toList := by
  have large : (1 : ℚ) < difficultyTwo.value := by
    norm_num [difficultyTwo]
  have value : difficultyTwo.value = 2 := rfl
  have window : equiWindow topByteHash = 0 := by
    decide
  have fullTop : (topByte topByteHash).toNat = 0xff := by
    decide
  rw [passesUserTarget_iff, sentTarget_leading40,
    leading40_target_of_one_lt difficultyTwo large, leading40_hash, value,
    windowLimit_two, targetLowWord_two, window, fullTop]
  decide

/--
At the sample difficulty the target is written past its end, and at difficulty
two a hash that meets the announced target is refused.
-/
theorem share_incomplete_at_samples :
    (∃ store ∈ equiStores sampleDifficulty.value, ¬ store.1 < 8) ∧
      littleEndian raisedHash.toList ≤
          BigEndian.value (sentTarget difficultyTwo) ∧
        ¬ passesUserTarget difficultyTwo raisedHash := by
  have window : equiWindow raisedHash = 0x7fff8001 := by
    decide
  have value : difficultyTwo.value = 2 := rfl
  refine ⟨?_, ?_, ?_⟩
  · have small : sampleDifficulty.value ≤ 1 := by
      norm_num [sampleDifficulty]
    rw [equiStores_of_le_one sampleDifficulty.positive small]
    exact ⟨_, List.mem_cons_of_mem _ (List.mem_singleton_self _), by simp⟩
  · have large : (1 : ℚ) < difficultyTwo.value := by
      norm_num [difficultyTwo]
    have target :=
      leading40_target_of_one_lt difficultyTwo large
    rw [leading40_eq (length_diffToTargetEqui difficultyTwo), value,
      windowLimit_two, targetLowWord_two, ← value,
      ← sentTarget_value] at target
    have number : littleEndian raisedHash.toList = 0x7fff8001 * 256 ^ 27 := by
      decide
    rw [number]
    simp only [if_true] at target
    omega
  · rw [passesUserTarget_iff, value, windowLimit_two, window]
    decide

end YiimpStratum.Difficulty
