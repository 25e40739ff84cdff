import YiimpStratum.Submit.DecredPaid

/-!
# Comparison values of other algorithms

Outside of Equihash a hash, a network target and a client target are compared
by 64 bits of each, from bit 176 on.  This orders hashes as the whole numbers
do, up to what is below these bits, so no hash that meets one of the targets is
turned away.
-/

namespace YiimpStratum.Difficulty

open YiimpStratum
open YiimpStratum.Util
open YiimpStratum.Decred

/-! ## Targets -/

/-- The target of a compact form with an exponent of at least 3. -/
def compactTarget (nbits : Nat) : Nat :=
  nbits % 2 ^ 24 * 256 ^ (nbits / 2 ^ 24 - 3)

/-- A compact form whose target has bits in the window and none above it. -/
structure WindowBits where
  nbits : LowerDigits 8
  lower : 2 ^ 176 ≤ compactTarget nbits.number
  upper : compactTarget nbits.number < 2 ^ 240

def WindowBits.target (bits : WindowBits) : Nat :=
  compactTarget bits.nbits.number

/-- The target of a client difficulty. -/
def clientTarget (diffMultiplier difficulty : ℚ) : ℚ :=
  0xffff * 2 ^ 208 * diffMultiplier / difficulty

/-- A difficulty whose target has no bits above the window. -/
structure WindowDifficulty (diffMultiplier : ℚ) where
  value : ℚ
  upper : clientTarget diffMultiplier value < 2 ^ 240

/-! ## The window of a hash -/

theorem getHashDifficulty_eq {hash : Bytes32}
    (passes : littleEndian hash.toList < 2 ^ 240) :
    getHashDifficulty hash = littleEndian hash.toList / 2 ^ 176 := by
  have length : hash.toList.length = 32 := hash.length_toList
  have tail : 8 ≤ (hash.toList.drop 22).length := by
    rw [List.length_drop, length]
    decide
  have weight : (256 : Nat) ^ 22 = 2 ^ 176 := by decide
  have width : (256 : Nat) ^ 8 = 2 ^ 64 := by decide
  rw [getHashDifficulty, (littleEndian_take_drop tail).1,
    (littleEndian_take_drop (by rw [length]; decide)).2, weight, width]
  exact Nat.mod_eq_of_lt (by omega)

/-- A hash below the two highest bytes passes the test of the prefix. -/
theorem hashPrefix_eq_zero {hash : Bytes32}
    (passes : littleEndian hash.toList < 2 ^ 240) : hashPrefix hash = 0 := by
  have length : hash.toList.length = 32 := hash.length_toList
  have weight : (256 : Nat) ^ 30 = 2 ^ 240 := by decide
  have top : littleEndian (hash.toList.drop 30) = 0 := by
    rw [(littleEndian_take_drop (by rw [length]; decide)).2, weight]
    exact Nat.div_eq_of_lt passes
  rw [littleEndian, BigEndian.value_eq_zero_iff] at top
  have joined (bytes : List UInt8) (zeros : ∀ byte ∈ bytes, byte = 0) :
      bytes.foldl (fun pfx byte => pfx ||| byte) 0 = 0 := by
    induction bytes with
    | nil => rfl
    | cons byte bytes ih =>
        rw [List.forall_mem_cons] at zeros
        rw [List.foldl_cons, zeros.1]
        exact ih zeros.2
  refine joined _ fun byte member => top byte ?_
  exact List.mem_reverse.mpr member

/-! ## The window of a target -/

theorem div_right_iterate (count : Nat) (d : ℚ) :
    (fun d : ℚ => d / 256)^[count] d = d / 256 ^ count := by
  simp only [div_eq_mul_inv]
  rw [mul_right_iterate, inv_pow]

/-- The fields of the word, which a target in the window bounds. -/
theorem WindowBits.fields (bits : WindowBits) :
    bits.nbits.number &&& 0x00ffffff = bits.nbits.number % 2 ^ 24 ∧
      (bits.nbits.number >>> 24) &&& 0xff = bits.nbits.number / 2 ^ 24 ∧
        bits.nbits.number % 2 ^ 24 ≠ 0 ∧ 3 ≤ bits.nbits.number / 2 ^ 24 := by
  have below := hexDigitsValue_lt bits.nbits.lower
  rw [bits.nbits.length_text] at below
  have small : bits.nbits.number < 2 ^ 32 := below
  have low : (0x00ffffff : Nat) = 2 ^ 24 - 1 := rfl
  have high : (0xff : Nat) = 2 ^ 8 - 1 := rfl
  have lower := bits.lower
  rw [compactTarget] at lower
  refine ⟨?_, ?_, fun zero => ?_, ?_⟩
  · rw [low, Nat.and_two_pow_sub_one_eq_mod]
  · rw [high, Nat.and_two_pow_sub_one_eq_mod, Nat.shiftRight_eq_div_pow]
    exact Nat.mod_eq_of_lt (by omega)
  · rw [zero, Nat.zero_mul] at lower
    omega
  · by_contra few
    have low : bits.nbits.number / 2 ^ 24 - 3 = 0 := by omega
    rw [low, pow_zero] at lower
    omega

/-- The scaled mantissa is the target from bit 176 on. -/
theorem decodeCompact_eq (bits : WindowBits) :
    decodeCompact bits.nbits.text = bits.target / 2 ^ 176 := by
  obtain ⟨low, high, nonzero, three⟩ := bits.fields
  rw [decodeCompact, bits.nbits.htoi64_text (by decide), low, high,
    WindowBits.target, compactTarget]
  generalize bits.nbits.number % 2 ^ 24 = mantissa at nonzero ⊢
  generalize bits.nbits.number / 2 ^ 24 = exponent at three ⊢
  rw [mul_right_iterate, div_right_iterate]
  have powers :
      (256 : ℚ) ^ (exponent - 3) * 256 ^ (29 - exponent) =
        256 ^ 26 * 256 ^ (exponent - 29) := by
    rw [← pow_add, ← pow_add]
    congr 1
    omega
  have mantissaNonzero : (mantissa : ℚ) ≠ 0 := by
    exact_mod_cast nonzero
  have quotient :
      (0x0000ffff00000000 : ℚ) /
          (0x0000ffff / (mantissa : ℚ) * 256 ^ (29 - exponent) /
            256 ^ (exponent - 29)) =
        ((mantissa * 256 ^ (exponent - 3) : Nat) : ℚ) /
          ((2 ^ 176 : Nat) : ℚ) := by
    have raised : (256 : ℚ) ^ (29 - exponent) ≠ 0 := by positivity
    rw [← eq_div_iff raised] at powers
    push_cast
    rw [powers]
    field_simp
    norm_num
  rw [truncate, quotient, Nat.floor_div_eq_div]

theorem diffToTarget_eq (diffMultiplier difficulty : ℚ) :
    diffToTarget diffMultiplier difficulty =
      ⌊clientTarget diffMultiplier difficulty / 2 ^ 176⌋₊ := by
  have window :
      clientTarget diffMultiplier difficulty / 2 ^ 176 =
        0x0000ffff00000000 * diffMultiplier / difficulty := by
    rw [clientTarget]
    ring
  rw [window, diffToTarget]
  split
  · rename_i zero
    rw [zero, div_zero, Nat.floor_zero]
  · rfl

/-! ## Meeting a target -/

section Meets

variable {hash : Bytes32}

theorem le_decodeCompact_of_le (bits : WindowBits)
    (passes : littleEndian hash.toList < 2 ^ 240)
    (meets : littleEndian hash.toList ≤ bits.target) :
    getHashDifficulty hash ≤ decodeCompact bits.nbits.text := by
  rw [getHashDifficulty_eq passes, decodeCompact_eq]
  exact Nat.div_le_div_right meets

theorem le_diffToTarget_of_le {diffMultiplier difficulty : ℚ}
    (passes : littleEndian hash.toList < 2 ^ 240)
    (meets :
      (littleEndian hash.toList : ℚ) ≤
        clientTarget diffMultiplier difficulty) :
    getHashDifficulty hash ≤ diffToTarget diffMultiplier difficulty := by
  have quotient :=
    Nat.floor_div_eq_div (K := ℚ) (littleEndian hash.toList) (2 ^ 176)
  rw [Nat.cast_pow, Nat.cast_ofNat] at quotient
  rw [getHashDifficulty_eq passes, diffToTarget_eq, ← quotient]
  exact Nat.floor_le_floor (div_le_div_of_nonneg_right meets (by positivity))

/-- The value of the network target is not replaced. -/
theorem coinTarget_eq (bits : WindowBits) {templ : YaampJobTemplate}
    (nbits : templ.nbits = bits.nbits.text) :
    Decred.coinTarget templ = decodeCompact bits.nbits.text := by
  have lower : 2 ^ 176 ≤ bits.target := bits.lower
  have nonzero : decodeCompact bits.nbits.text ≠ 0 := by
    rw [decodeCompact_eq]
    exact Nat.ne_of_gt (Nat.div_pos lower (Nat.two_pow_pos 176))
  rw [Decred.coinTarget, nbits]
  exact if_neg nonzero

end Meets

/-! ## The order of hashes -/

/-- How a hash stands to a network target and to a client target. -/
structure WindowOrders (env : Environment) (bits : WindowBits)
    (difficulty : WindowDifficulty env.diffMultiplier) (hash : Bytes32) :
    Prop where
  /-- both targets are values of 64 bits -/
  fits : decodeCompact bits.nbits.text < 2 ^ 64 ∧
    diffToTarget env.diffMultiplier difficulty.value < 2 ^ 64
  network : getHashDifficulty hash ≤ decodeCompact bits.nbits.text ↔
    littleEndian hash.toList / 2 ^ 176 ≤ bits.target / 2 ^ 176
  client :
    getHashDifficulty hash ≤
        diffToTarget env.diffMultiplier difficulty.value ↔
      littleEndian hash.toList / 2 ^ 176 ≤
        ⌊clientTarget env.diffMultiplier difficulty.value / 2 ^ 176⌋₊
  accepted : ∀ (job : YaampJob) (client : YaampClient),
    job.templ.nbits = bits.nbits.text →
      client.difficultyActual = difficulty.value →
        (littleEndian hash.toList ≤ bits.target ∨
          (littleEndian hash.toList : ℚ) ≤
            clientTarget env.diffMultiplier difficulty.value) →
          hashError env job client hash = none

/-- The comparison values order hashes as the whole numbers do. -/
theorem windowOrders (env : Environment) (bits : WindowBits)
    (difficulty : WindowDifficulty env.diffMultiplier) {hash : Bytes32}
    (passes : littleEndian hash.toList < 2 ^ 240) :
    WindowOrders env bits difficulty hash where
  fits := by
    have upper : bits.target < 2 ^ 240 := bits.upper
    rw [decodeCompact_eq, diffToTarget_eq]
    constructor
    · omega
    · rw [Nat.floor_lt' (by decide), div_lt_iff₀ (by positivity)]
      refine difficulty.upper.trans_eq ?_
      norm_num
  network := by
    rw [getHashDifficulty_eq passes, decodeCompact_eq]
  client := by
    rw [getHashDifficulty_eq passes, diffToTarget_eq]
  accepted := by
    intro job client nbits isDifficulty meets
    have value := coinTarget_eq bits nbits
    rw [hashError, if_neg (not_not.mpr (hashPrefix_eq_zero passes)),
      isDifficulty, value, if_neg]
    rintro ⟨aboveClient, aboveNetwork⟩
    rcases meets with network | client
    · exact Nat.not_le_of_lt aboveNetwork
        (le_decodeCompact_of_le bits passes network)
    · exact Nat.not_le_of_lt aboveClient
        (le_diffToTarget_of_le passes client)

/-! ## A target and a difficulty of one -/

/-- The compact form `1d00ffff`. -/
def difficultyOneBits : WindowBits where
  nbits :=
    { text := "1d00ffff".toList
      length_text := rfl
      lower := by decide }
  lower := by decide
  upper := by decide

def difficultyOne : WindowDifficulty sampleEnvironment.diffMultiplier where
  value := 1
  upper := by
    rw [clientTarget, sampleEnvironment]
    norm_num

/-- The hash that is the target: two bytes below the zeros in front. -/
def hashAtTarget : Bytes32 :=
  Vector.ofFn fun index => if index.val / 2 = 13 then 0xff else 0

theorem windowOrders_atTarget :
    WindowOrders sampleEnvironment difficultyOneBits difficultyOne
        hashAtTarget ∧
      littleEndian hashAtTarget.toList = difficultyOneBits.target :=
  ⟨windowOrders sampleEnvironment difficultyOneBits difficultyOne (by decide),
    by decide⟩

end YiimpStratum.Difficulty
