import Mathlib.Algebra.Order.Floor.Semifield
import Mathlib.Data.Rat.Floor
import Mathlib.Tactic.FieldSimp
import YiimpStratum.Util.Hex

/-!
# Difficulty arithmetic of the Equihash path

The conversions of `util.cpp` between difficulties, 64-bit comparison values,
compact targets and 256-bit targets.  Doubles are read as exact rationals; the
conversion to `uint64_t` truncates, and is only relied on where the result
fits.

Besides the definitions the module derives their closed forms.  The comparison
value of a hash is the 32-bit window over its bytes 30 to 27, shifted left by
16: the most significant byte does not take part in it.
-/

namespace YiimpStratum.Util

open YiimpStratum

/-- The 32 bytes of a hash or target, least significant byte first. -/
abbrev Bytes32 := Vector UInt8 32

/-- The 256-bit number of a little-endian byte string. -/
def littleEndian (bytes : List UInt8) : Nat :=
  BigEndian.value bytes.reverse

theorem littleEndian_append (low high : List UInt8) :
    littleEndian (low ++ high) =
      littleEndian low + 256 ^ low.length * littleEndian high := by
  rw [littleEndian, List.reverse_append, BigEndian.value_append,
    List.length_reverse, littleEndian, littleEndian]
  ring

theorem littleEndian_cons (byte : UInt8) (bytes : List UInt8) :
    littleEndian (byte :: bytes) =
      byte.toNat + 256 * littleEndian bytes := by
  simpa [littleEndian] using littleEndian_append [byte] bytes

theorem littleEndian_single (byte : UInt8) :
    littleEndian [byte] = byte.toNat :=
  BigEndian.value_singleton byte

theorem littleEndian_lt (bytes : List UInt8) :
    littleEndian bytes < 256 ^ bytes.length := by
  have below := BigEndian.value_lt bytes.reverse
  rwa [List.length_reverse] at below

theorem littleEndian_take_drop {bytes : List UInt8} {count : Nat}
    (inside : count ≤ bytes.length) :
    littleEndian (bytes.take count) =
        littleEndian bytes % 256 ^ count ∧
      littleEndian (bytes.drop count) =
        littleEndian bytes / 256 ^ count := by
  have length : (bytes.take count).length = count :=
    List.length_take_of_le inside
  have whole := littleEndian_append (bytes.take count) (bytes.drop count)
  have below := littleEndian_lt (bytes.take count)
  have positive : 0 < 256 ^ count := Nat.pow_pos (by decide)
  rw [List.take_append_drop, length] at whole
  rw [length] at below
  constructor
  · rw [whole, Nat.add_mul_mod_self_left, Nat.mod_eq_of_lt below]
  · rw [whole, Nat.add_mul_div_left _ _ positive, Nat.div_eq_of_lt below,
      Nat.zero_add]

/-! ## Comparison values -/

/-- The conversion of a double to `uint64_t`. -/
def truncate (number : ℚ) : Nat :=
  ⌊number⌋₊

def diffToTarget (diffMultiplier difficulty : ℚ) : Nat :=
  if difficulty = 0 then 0
  else truncate (0x0000ffff00000000 * diffMultiplier / difficulty)

/-- The variable `m` of `target_to_diff_equi`. -/
def equiWindow (tgt : Bytes32) : Nat :=
  tgt[30].toNat <<< 24 ||| tgt[29].toNat <<< 16 ||| tgt[28].toNat <<< 8 |||
    tgt[27].toNat <<< 0

def targetToDiffEqui (tgt : Bytes32) : ℚ :=
  if equiWindow tgt = 0 then 0 else 0xffff0000 / equiWindow tgt

/-- The compact form of the constant `powLimit`. -/
def powLimit : Nat := 0x200f0f0f

def nbitsToDiffEqui (bits : Nat) : ℚ :=
  let nShift := (bits >>> 24) &&& 0xff
  let nShiftAmount := (powLimit >>> 24) &&& 0xff
  let dDiff : ℚ :=
    ((powLimit &&& 0x00ffffff : Nat) : ℚ) / ((bits &&& 0x00ffffff : Nat) : ℚ)
  let raised := (fun dDiff : ℚ => dDiff * 256)^[nShiftAmount - nShift] dDiff
  (fun dDiff : ℚ => dDiff / 256)^[nShift - nShiftAmount] raised

/-! ## The target sent to a miner -/

/--
The loop that divides by `2 ^ 32`: the final value of `k` and of the
difficulty.
-/
def scaleDifficulty : Nat → ℚ → Nat × ℚ
  | 0, diff => (0, diff)
  | k + 1, diff =>
      if 1 < diff then scaleDifficulty k (diff / 4294967296)
      else (k + 1, diff)

/-- The four bytes of a word in memory. -/
def wordBytes (word : Nat) : List UInt8 :=
  (BigEndian.encode 4 word).reverse

/--
The loop over the bytes of the target: zero bytes become `0xff`, up to the
first byte that is not zero and at most `count` of them.
-/
def fillZeros : Nat → List UInt8 → List UInt8
  | 0, bytes => bytes
  | _ + 1, [] => []
  | count + 1, byte :: bytes =>
      if byte == 0 then 0xff :: fillZeros count bytes else byte :: bytes

/--
The word stores `target[index] = word` of `diff_to_target_equi`, in order.
The target has the words 0 to 7.
-/
def equiStores (diff : ℚ) : List (Nat × Nat) :=
  let scaled := scaleDifficulty 6 diff
  let m := truncate (4294901760 / scaled.2)
  if m = 0 ∧ scaled.1 = 6 then
    []
  else
    [(scaled.1 + 1, (m >>> 8) % 2 ^ 32), (scaled.1 + 2, (m >>> 40) % 2 ^ 32)]

/--
`diff_to_target_equi`: the 32 bytes of the target afterwards.  A store behind
the last word leaves them as they are.
-/
def diffToTargetEqui (diff : ℚ) : List UInt8 :=
  if equiStores diff = [] then
    List.replicate 32 0xff
  else
    fillZeros 28
      (((equiStores diff).foldl
        (fun words store => words.set store.1 store.2)
        (List.replicate 8 0)).flatMap wordBytes)

/-- The parameter of the message `mining.set_target`. -/
def clientSendDifficulty (difficulty : ℚ) : CString :=
  stringBe (hexlify (diffToTargetEqui difficulty))

/-! ## Checks on a difficulty -/

def yaampMindiff : Nat := 0x0000000080000000

def yaampMaxdiff : Nat := 0x4000000000000000

/-- `diff_multiplier` in the entry of `g_algos` for Equihash. -/
def equihashDiffMultiplier : ℚ := 1

/-- A client difficulty that passes the bounds on its comparison value. -/
structure ClientDifficulty where
  value : ℚ
  positive : 0 < value
  aboveMin : yaampMindiff ≤ diffToTarget equihashDiffMultiplier value
  belowMax : diffToTarget equihashDiffMultiplier value ≤ yaampMaxdiff

/-! ## Values compared by the submission handler -/

/-- `hash_int` -/
def hashInt (hash : Bytes32) : Nat :=
  diffToTarget equihashDiffMultiplier (targetToDiffEqui hash)

/-- `coin_target`, after the replacement of zero. -/
def coinTarget (bits : Nat) : Nat :=
  let target := diffToTarget equihashDiffMultiplier (nbitsToDiffEqui bits)
  if target = 0 then 0xFFFF000000000000 else target

/-! ## Closed forms -/

theorem equiWindow_eq (tgt : Bytes32) :
    equiWindow tgt =
      BigEndian.value [tgt[30], tgt[29], tgt[28], tgt[27]] := by
  have bound30 := tgt[30].toNat_lt
  have bound29 := tgt[29].toNat_lt
  have bound28 := tgt[28].toNat_lt
  have bound27 := tgt[27].toNat_lt
  have tail :
      tgt[28].toNat <<< 8 ||| tgt[27].toNat =
        tgt[28].toNat * 256 + tgt[27].toNat := by
    rw [← Nat.shiftLeft_add_eq_or_of_lt bound27, Nat.shiftLeft_eq]
  have middle :
      tgt[29].toNat <<< 16 ||| (tgt[28].toNat * 256 + tgt[27].toNat) =
        tgt[29].toNat * 65536 + (tgt[28].toNat * 256 + tgt[27].toNat) := by
    rw [← Nat.shiftLeft_add_eq_or_of_lt (by omega), Nat.shiftLeft_eq]
  have whole :
      tgt[30].toNat <<< 24 |||
          (tgt[29].toNat * 65536 + (tgt[28].toNat * 256 + tgt[27].toNat)) =
        tgt[30].toNat * 16777216 +
          (tgt[29].toNat * 65536 +
            (tgt[28].toNat * 256 + tgt[27].toNat)) := by
    rw [← Nat.shiftLeft_add_eq_or_of_lt (by omega), Nat.shiftLeft_eq]
  rw [equiWindow, Nat.shiftLeft_zero, Nat.or_assoc, Nat.or_assoc, tail,
    middle, whole]
  simp only [BigEndian.value, List.foldl_cons, List.foldl_nil]
  omega

theorem equiWindow_lt (tgt : Bytes32) : equiWindow tgt < 2 ^ 32 := by
  have bound :
      BigEndian.value [tgt[30], tgt[29], tgt[28], tgt[27]] < 256 ^ 4 :=
    BigEndian.value_lt _
  rw [equiWindow_eq]
  omega

/-- The comparison value of a hash. -/
theorem hashInt_eq (hash : Bytes32) :
    hashInt hash = equiWindow hash * 2 ^ 16 := by
  by_cases zero : equiWindow hash = 0
  · simp [hashInt, targetToDiffEqui, diffToTarget, zero]
  · have nonzero : (equiWindow hash : ℚ) ≠ 0 := by
      exact_mod_cast zero
    have quotient :
        (0xffff0000 : ℚ) / equiWindow hash ≠ 0 :=
      div_ne_zero (by norm_num) nonzero
    have exactQuotient :
        (0x0000ffff00000000 : ℚ) * 1 / (0xffff0000 / equiWindow hash) =
          ((equiWindow hash * 2 ^ 16 : Nat) : ℚ) := by
      push_cast
      field_simp
      norm_num
    rw [hashInt, targetToDiffEqui, if_neg zero, diffToTarget,
      if_neg quotient, equihashDiffMultiplier, truncate, exactQuotient,
      Nat.floor_natCast]

end YiimpStratum.Util
