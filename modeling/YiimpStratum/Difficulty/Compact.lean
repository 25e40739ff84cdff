import YiimpStratum.Library.CompactTarget
import YiimpStratum.Util.Difficulty
import YiimpStratum.Util.HexText

/-!
# Targets in compact form

`target2bits` of `util.cpp`, which shifts a number of 256 bits by reading two
neighbouring words of the array `pn`.  For a number of 31 or 32 bytes the
second word is behind the end of the array.

So the compact form is computed from the words of the array exactly for the
targets of at most 30 bytes.
-/

namespace YiimpStratum.Difficulty

open YiimpStratum
open YiimpStratum.Util

/-! ## The code -/

/-- An entry of `pn`; what is in memory behind the array is given. -/
def pnWord (pn : List UInt8) (outside : Nat → UInt32) (pos : Nat) : Nat :=
  if pos < 8 then littleEndian ((pn.drop (4 * pos)).take 4)
  else (outside pos).toNat

/-- The loop over the bits of a word, from a bit down to the bit 1. -/
def highBit (word : Nat) : Nat → Nat
  | 0 => 0
  | bits + 1 => if word.testBit (bits + 1) then bits + 1 else highBit word bits

/-- The loop over the words: `bits_res` and the entries that are read. -/
def bitsRes (pn : Nat → Nat) : Nat → Nat × List Nat
  | 0 => (0, [])
  | pos + 1 =>
      if pn pos ≠ 0 then (32 * pos + highBit (pn pos) 31 + 1, [pos])
      else ((bitsRes pn pos).1, pos :: (bitsRes pn pos).2)

/-- `nCompact` and `nSize` before the sign bit is looked at. -/
def shiftedWords (pn : Nat → Nat) (nSize : Nat) : Nat × List Nat :=
  if nSize ≤ 3 then
    let low64 := pn 0 ||| pn 1 <<< 32
    ((low64 <<< (8 * (3 - nSize))) % 2 ^ 32, [0, 1])
  else
    let shift := 8 * (nSize - 3)
    let shrBytes := shift / 8 % 4
    let pos := shift / 8 / 4
    let low64 := pn pos ||| pn (pos + 1) <<< 32
    ((low64 >>> (shrBytes * 8)) % 2 ^ 32, [pos, pos + 1])

/-- The word with the exponent, after the sign bit is cleared. -/
def compactWord (nCompact nSize : Nat) : Nat :=
  if nCompact &&& 0x00800000 ≠ 0 then nCompact >>> 8 ||| (nSize + 1) <<< 24
  else nCompact ||| nSize <<< 24

/-- What `target2bits` returns, and the entries of `pn` that it reads. -/
structure Target2bits where
  nbits : Nat
  reads : List Nat

def target2bits (outside : Nat → UInt32) (target : CString) : Target2bits :=
  let pn := pnWord (binlify (stringBe target)) outside
  let bits := bitsRes pn 8
  let nSize := (bits.1 + 7) / 8
  let shifted := shiftedWords pn nSize
  { nbits := compactWord shifted.1 nSize
    reads := bits.2 ++ shifted.2 }

/-! ## Words -/

/-- The entries of `pn` are the words of the number. -/
theorem pnWord_eq {bytes : List UInt8} (length : bytes.length = 32)
    (outside : Nat → UInt32) {pos : Nat} (inside : pos < 8) :
    pnWord bytes outside pos =
      littleEndian bytes / 2 ^ (32 * pos) % 2 ^ 32 := by
  have weight : (2 : Nat) ^ (32 * pos) = 256 ^ (4 * pos) := by
    rw [pow_mul, pow_mul]
    rfl
  have word : (2 : Nat) ^ 32 = 256 ^ 4 := rfl
  have tail : 4 ≤ (bytes.drop (4 * pos)).length := by
    rw [List.length_drop]
    omega
  rw [pnWord, if_pos inside, (littleEndian_take_drop tail).1,
    (littleEndian_take_drop (by omega)).2, weight, word]

/-! ## The highest bit -/

theorem highBit_succ {word bits : Nat} (below : word < 2 ^ (bits + 1))
    (nonzero : word ≠ 0) : highBit word bits + 1 = Nat.size word := by
  induction bits with
  | zero =>
      have one : word = 1 := by omega
      rw [highBit, one, Nat.size_one]
  | succ bits ih =>
      rw [highBit]
      split
      · rename_i set
        have lower : bits + 1 < Nat.size word :=
          Nat.lt_size.mpr (Nat.ge_two_pow_of_testBit set)
        have upper : Nat.size word ≤ bits + 2 := Nat.size_le.mpr below
        omega
      · rename_i unset
        refine ih (Nat.lt_of_not_le fun large => unset ?_)
        rw [Nat.testBit_eq_decide_div_mod_eq, decide_eq_true_eq]
        have quotient : word / 2 ^ (bits + 1) = 1 := by
          rw [Nat.div_eq_iff (Nat.two_pow_pos _)]
          rw [pow_succ] at below
          omega
        rw [quotient]

/-- The bits of the quotient come first. -/
theorem size_eq_add_size_div {number shift : Nat}
    (nonzero : number / 2 ^ shift ≠ 0) :
    Nat.size number = shift + Nat.size (number / 2 ^ shift) := by
  have positive := Nat.two_pow_pos shift
  have nonempty : 0 < Nat.size (number / 2 ^ shift) :=
    Nat.size_pos.mpr (Nat.pos_of_ne_zero nonzero)
  apply Nat.le_antisymm
  · rw [Nat.size_le, pow_add, Nat.mul_comm,
      ← Nat.div_lt_iff_lt_mul positive]
    exact Nat.lt_size_self _
  · have last :
        2 ^ (Nat.size (number / 2 ^ shift) - 1) ≤ number / 2 ^ shift :=
      Nat.lt_size.mp (by omega)
    rw [Nat.le_div_iff_mul_le positive, Nat.mul_comm, ← pow_add,
      ← Nat.lt_size] at last
    omega

/-- The first word that is not zero has the highest bit of the number. -/
theorem bitsRes_eq {pn : Nat → Nat} {number count : Nat}
    (words : ∀ pos < count, pn pos = number / 2 ^ (32 * pos) % 2 ^ 32)
    (below : number < 2 ^ (32 * count)) :
    (bitsRes pn count).1 = Nat.size number := by
  induction count with
  | zero =>
      have zero : number = 0 := by omega
      rw [bitsRes, zero, Nat.size_zero]
  | succ count ih =>
      have weight : 2 ^ (32 * (count + 1)) = 2 ^ (32 * count) * 2 ^ 32 := by
        rw [← pow_add]
        rfl
      have positive := Nat.two_pow_pos (32 * count)
      have top : number / 2 ^ (32 * count) < 2 ^ 32 := by
        rw [Nat.div_lt_iff_lt_mul positive, Nat.mul_comm, ← weight]
        exact below
      have word : pn count = number / 2 ^ (32 * count) := by
        rw [words count (Nat.lt_succ_self count), Nat.mod_eq_of_lt top]
      rw [bitsRes]
      split
      · rename_i nonzero
        have size := highBit_succ (word ▸ top) nonzero
        rw [word] at size nonzero
        rw [word, size_eq_add_size_div nonzero, ← size]
        rfl
      · rename_i zero
        rw [not_not] at zero
        rw [zero, eq_comm, Nat.div_eq_zero_iff] at word
        exact ih (fun pos less => words pos (Nat.lt_succ_of_lt less))
          (word.resolve_left (Nat.ne_of_gt positive))

theorem bitsRes_reads {pn : Nat → Nat} {count : Nat} :
    ∀ pos ∈ (bitsRes pn count).2, pos < count := by
  induction count with
  | zero => exact fun _ member => absurd member List.not_mem_nil
  | succ count ih =>
      rw [bitsRes]
      split
      · exact List.forall_mem_singleton.mpr (Nat.lt_succ_self count)
      · exact List.forall_mem_cons.mpr
          ⟨Nat.lt_succ_self count,
            fun pos member => Nat.lt_succ_of_lt (ih pos member)⟩

/-! ## The shift -/

/-- A word and the one above it, shifted down. -/
theorem shiftRight_words {low : Nat} (below : low < 2 ^ 32)
    (high shift : Nat) :
    (low ||| high <<< 32) >>> shift = (2 ^ 32 * high + low) / 2 ^ shift := by
  rw [Nat.or_comm, ← Nat.shiftLeft_add_eq_or_of_lt below, Nat.shiftLeft_eq,
    Nat.shiftRight_eq_div_pow, Nat.mul_comm]

/-- The array has the words of a number of 256 bits. -/
structure HasWords (pn : Nat → Nat) (number : Nat) : Prop where
  words : ∀ pos < 8, pn pos = number / 2 ^ (32 * pos) % 2 ^ 32
  below : number < 2 ^ 256

/-- A long number without the words below the first one that is read. -/
theorem quotient_of_size {number size : Nat}
    (isSize : CompactTarget.significantBytes number = size)
    (long : 3 < size) :
    number / 2 ^ (32 * ((size - 3) / 4)) <
        2 ^ (8 * ((size - 3) % 4) + 24) ∧
      CompactTarget.leading number =
        number / 2 ^ (32 * ((size - 3) / 4)) / 2 ^ (8 * ((size - 3) % 4)) := by
  have small := CompactTarget.lt_pow_significantBytes number
  have base : (256 : Nat) = 2 ^ 8 := rfl
  constructor
  · rw [Nat.div_lt_iff_lt_mul (Nat.two_pow_pos _), ← pow_add]
    rw [isSize, base, ← pow_mul] at small
    have bits :
        8 * ((size - 3) % 4) + 24 + 32 * ((size - 3) / 4) = 8 * size := by
      omega
    rwa [bits]
  · have bits :
        32 * ((size - 3) / 4) + 8 * ((size - 3) % 4) = 8 * (size - 3) := by
      omega
    rw [CompactTarget.leading_of_lt (isSize ▸ long), isSize,
      Nat.div_div_eq_div_mul, ← pow_add, bits, base, ← pow_mul]

namespace HasWords

variable {pn : Nat → Nat} {number : Nat} (has : HasWords pn number)

include has

theorem significantBytes_le :
    CompactTarget.significantBytes number ≤ 32 :=
  CompactTarget.significantBytes_le_iff.mpr has.below

theorem lowWord {pos : Nat} (inside : pos < 8) : pn pos < 2 ^ 32 := by
  rw [has.words pos inside]
  exact Nat.mod_lt _ (Nat.two_pow_pos 32)

/-- A short number is in the first two words. -/
theorem shiftedWords_short
    (short : CompactTarget.significantBytes number ≤ 3) :
    (shiftedWords pn (CompactTarget.significantBytes number)).1 =
      CompactTarget.leading number := by
  have small : number < 256 ^ 3 :=
    CompactTarget.significantBytes_le_iff.mp short
  have first : pn 0 = number := by
    rw [has.words 0 (by decide), Nat.mul_zero, pow_zero, Nat.div_one]
    exact Nat.mod_eq_of_lt (by omega)
  have second : pn 1 = 0 := by
    rw [has.words 1 (by decide), Nat.div_eq_of_lt (by omega), Nat.zero_mod]
  have below := CompactTarget.leading_lt number
  have weight :
      (2 : Nat) ^ (8 * (3 - CompactTarget.significantBytes number)) =
        256 ^ (3 - CompactTarget.significantBytes number) := by
    rw [pow_mul]
    rfl
  rw [shiftedWords, if_pos short, first, second, Nat.zero_shiftLeft,
    Nat.or_zero]
  dsimp only
  rw [Nat.shiftLeft_eq, weight, ← CompactTarget.leading_of_le short]
  exact Nat.mod_eq_of_lt (by omega)

/--
A long number is read from two neighbouring words.  What is in the higher one
beyond the number is not shifted out.
-/
theorem shiftedWords_long {size : Nat}
    (isSize : CompactTarget.significantBytes number = size)
    (long : 3 < size) :
    (shiftedWords pn size).1 =
      (2 ^ 32 * pn ((size - 3) / 4 + 1) +
          number / 2 ^ (32 * ((size - 3) / 4)) % 2 ^ 32) /
        2 ^ (8 * ((size - 3) % 4)) % 2 ^ 32 := by
  have short := has.significantBytes_le
  have bytes : 8 * (size - 3) / 8 = size - 3 :=
    Nat.mul_div_cancel_left _ (by decide)
  have inside : (size - 3) / 4 < 8 := by omega
  rw [shiftedWords, if_neg (by omega)]
  dsimp only
  rw [bytes, shiftRight_words (has.lowWord inside), has.words _ inside,
    Nat.mul_comm 8]

/-- Up to 31 bytes the leading ones are found. -/
theorem shiftedWords_eq
    (few : CompactTarget.significantBytes number ≤ 31) :
    (shiftedWords pn (CompactTarget.significantBytes number)).1 =
      CompactTarget.leading number := by
  rcases Nat.lt_or_ge 3 (CompactTarget.significantBytes number) with
    long | short
  · generalize isSize : CompactTarget.significantBytes number = size
    rw [isSize] at few long
    obtain ⟨below, leading⟩ := quotient_of_size isSize long
    have bound := CompactTarget.leading_lt number
    rw [has.shiftedWords_long isSize long, leading]
    rw [leading] at bound
    rcases Nat.lt_or_ge size 31 with inside | last
    · have next : (size - 3) / 4 + 1 < 8 := by omega
      have high :
          pn ((size - 3) / 4 + 1) =
            number / 2 ^ (32 * ((size - 3) / 4)) / 2 ^ 32 % 2 ^ 32 := by
        rw [has.words _ next, Nat.mul_succ, pow_add, Nat.div_div_eq_div_mul]
      have top : number / 2 ^ (32 * ((size - 3) / 4)) < 2 ^ 64 :=
        below.trans_le (Nat.pow_le_pow_right (by decide) (by omega))
      rw [high]
      generalize number / 2 ^ (32 * ((size - 3) / 4)) = rest at *
      have whole :
          2 ^ 32 * (rest / 2 ^ 32 % 2 ^ 32) + rest % 2 ^ 32 = rest := by
        omega
      rw [whole]
      exact Nat.mod_eq_of_lt (by omega)
    · -- the word above is outside, but all of it is cut off
      have isLast : size = 31 := by omega
      subst isLast
      have shift : 8 * ((31 - 3) % 4) = 0 := rfl
      rw [shift, pow_zero, Nat.div_one] at bound ⊢
      rw [Nat.div_one, Nat.mul_add_mod, Nat.mod_mod]
      exact Nat.mod_eq_of_lt (by omega)
  · exact has.shiftedWords_short short

/-- At 32 bytes one byte of the word outside is not cut off. -/
theorem shiftedWords_full
    (full : CompactTarget.significantBytes number = 32) :
    (shiftedWords pn 32).1 =
      2 ^ 24 * (pn 8 % 256) + CompactTarget.leading number := by
  obtain ⟨below, leading⟩ := quotient_of_size full (by decide)
  have bound := CompactTarget.leading_lt number
  rw [has.shiftedWords_long full (by decide), leading]
  rw [leading] at bound
  have pos : (32 - 3) / 4 = 7 := rfl
  have shift : 8 * ((32 - 3) % 4) = 8 := rfl
  have next : 7 + 1 = 8 := rfl
  have bits : 8 + 24 = 32 := rfl
  rw [pos, shift] at bound below ⊢
  rw [next]
  rw [bits] at below
  generalize number / 2 ^ (32 * 7) = rest at *
  omega

end HasWords

/-! ## The sign bit -/

theorem signBit_iff (nCompact : Nat) :
    nCompact &&& 0x00800000 ≠ 0 ↔ nCompact / 2 ^ 23 % 2 = 1 := by
  have bit : 0x00800000 = 2 ^ 23 := rfl
  rw [bit, Nat.and_two_pow, Nat.testBit_eq_decide_div_mod_eq]
  simp

theorem compactWord_eq {nCompact : Nat} (below : nCompact < 2 ^ 24)
    (nSize : Nat) :
    compactWord nCompact nSize =
      if nCompact < 2 ^ 23 then nSize * 2 ^ 24 + nCompact
      else (nSize + 1) * 2 ^ 24 + nCompact / 256 := by
  have sign := signBit_iff nCompact
  rw [compactWord]
  by_cases low : nCompact < 2 ^ 23
  · rw [if_pos low, if_neg (by rw [sign]; omega), Nat.or_comm,
      ← Nat.shiftLeft_add_eq_or_of_lt below, Nat.shiftLeft_eq]
  · have small : nCompact >>> 8 < 2 ^ 24 := by
      rw [Nat.shiftRight_eq_div_pow]
      omega
    rw [if_neg low, if_pos (by rw [sign]; omega), Nat.or_comm,
      ← Nat.shiftLeft_add_eq_or_of_lt small, Nat.shiftLeft_eq,
      Nat.shiftRight_eq_div_pow]

/-! ## When the compact form is right -/

section Targets

variable (target : LowerDigits 64) (outside : Nat → UInt32)

theorem hasWords_target :
    HasWords (pnWord (binlify (stringBe target.text)) outside)
      target.number := by
  have even : 64 % 2 = 0 := rfl
  have bytes : binlify (stringBe target.text) = target.bytes.reverse :=
    LowerDigits.binlify_stringBe even
  have length : target.bytes.reverse.length = 32 := by
    rw [List.length_reverse, LowerDigits.length_bytes even]
  have number : littleEndian target.bytes.reverse = target.number := by
    rw [littleEndian, List.reverse_reverse, LowerDigits.value_bytes even]
  refine ⟨fun pos inside => ?_, ?_⟩
  · rw [bytes, pnWord_eq length outside inside, number]
  · have below := littleEndian_lt target.bytes.reverse
    rw [length, number] at below
    exact below

/-- What is returned, in terms of the number of bytes. -/
theorem target2bits_eq :
    target2bits outside target.text =
      { nbits :=
          compactWord
            (shiftedWords
              (pnWord (binlify (stringBe target.text)) outside)
              (CompactTarget.significantBytes target.number)).1
            (CompactTarget.significantBytes target.number)
        reads :=
          (bitsRes (pnWord (binlify (stringBe target.text)) outside) 8).2 ++
            (shiftedWords
              (pnWord (binlify (stringBe target.text)) outside)
              (CompactTarget.significantBytes target.number)).2 } := by
  have has := hasWords_target target outside
  rw [target2bits, bitsRes_eq has.words has.below]
  rfl

theorem nbits_of_le
    (few : CompactTarget.significantBytes target.number ≤ 31) :
    (target2bits outside target.text).nbits =
      CompactTarget.getCompact target.number := by
  rw [target2bits_eq]
  dsimp only
  rw [(hasWords_target target outside).shiftedWords_eq few,
    compactWord_eq (CompactTarget.leading_lt _), CompactTarget.getCompact]

end Targets

/--
Whatever is in memory behind `pn`, the compact form of a target is right, and
only entries of `pn` are read.
-/
structure CompactRight (target : LowerDigits 64) : Prop where
  nbits : ∀ outside, (target2bits outside target.text).nbits =
    CompactTarget.getCompact target.number
  reads : ∀ outside, ∀ pos ∈ (target2bits outside target.text).reads, pos < 8

/-- The last entry that is read, by the number of bytes. -/
theorem shiftedWords_reads (pn : Nat → Nat) {nSize : Nat}
    (long : 3 < nSize) :
    (shiftedWords pn nSize).2 =
      [(nSize - 3) / 4, (nSize - 3) / 4 + 1] := by
  have bytes : 8 * (nSize - 3) / 8 = nSize - 3 :=
    Nat.mul_div_cancel_left _ (by decide)
  rw [shiftedWords, if_neg (by omega)]
  dsimp only
  rw [bytes]

/-- The compact form is right for the targets of at most 30 bytes. -/
theorem compactRight_iff (target : LowerDigits 64) :
    CompactRight target ↔ target.number < 2 ^ 240 := by
  have power : (2 : Nat) ^ 240 = 256 ^ 30 := rfl
  rw [power, ← CompactTarget.significantBytes_le_iff]
  constructor
  · intro right
    by_contra many
    have outside := right.reads (fun _ => 0) 8
    have short :=
      (hasWords_target target fun _ => 0).significantBytes_le
    have last :
        (CompactTarget.significantBytes target.number - 3) / 4 + 1 = 8 := by
      omega
    rw [target2bits_eq, shiftedWords_reads _ (by omega), last] at outside
    have read := outside (List.mem_append_right _ (by simp))
    omega
  · intro few
    refine ⟨fun outside => nbits_of_le target outside (by omega), ?_⟩
    intro outside
    rw [target2bits_eq]
    refine List.forall_mem_append.mpr ⟨bitsRes_reads, ?_⟩
    rcases Nat.lt_or_ge 3 (CompactTarget.significantBytes target.number)
      with long | short
    · rw [shiftedWords_reads _ long]
      intro pos member
      rcases List.mem_pair.mp member with rfl | rfl
      · omega
      · omega
    · rw [shiftedWords, if_pos short]
      exact (by decide : ∀ pos ∈ [0, 1], pos < 8)

/-! ## The largest target of a test network -/

/-- The target `0f0f0f` and 29 bytes of zeros. -/
def testTarget : LowerDigits 64 where
  text := "0f0f0f".toList ++ List.replicate 58 '0'
  length_text := rfl
  lower := by decide

theorem number_testTarget : testTarget.number = 0x0f0f0f * 256 ^ (32 - 3) := by
  decide

/-- A byte behind the array comes into the exponent. -/
theorem not_compactRight_testTarget : ¬ CompactRight testTarget := by
  intro right
  have compact := CompactTarget.getCompact_scaled (by decide : 3 ≤ 32)
    (by decide : 2 ^ 15 ≤ 0x0f0f0f) (by decide)
  have returned :
      (target2bits (fun _ => 1) testTarget.text).nbits = 0x210f0f0f := by
    decide
  have same := right.nbits fun _ => 1
  rw [returned, number_testTarget, compact] at same
  exact absurd same (by decide)

end YiimpStratum.Difficulty
