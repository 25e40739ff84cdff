import YiimpStratum.Difficulty.Compact

/-!
# From compact form and back

`bits2target` of `util.cpp` writes the three bytes of the mantissa into an
array of 32 bytes.  The digits are those of the target for every canonical
compact form, but `target2bits` finds the form again only where no byte behind
its own array comes into the exponent.
-/

namespace YiimpStratum.Difficulty

open YiimpStratum
open YiimpStratum.Util

/-! ## The code -/

/-- The stores `out_target_bin[index] = byte`, in order. -/
def bits2targetStores (nbits : UInt32) : List (UInt32 × UInt8) :=
  if nbits ≠ 0 then
    [((nbits >>> 24) - 1, ((nbits >>> 16) &&& 0xff).toUInt8),
      ((nbits >>> 24) - 2, ((nbits >>> 8) &&& 0xff).toUInt8),
      ((nbits >>> 24) - 3, (nbits &&& 0xff).toUInt8)]
  else []

/-- The text `out_target`, for stores inside of the array. -/
def bits2target (nbits : UInt32) : CString :=
  stringBe
    (hexlify
      ((bits2targetStores nbits).foldl
        (fun bin store => bin.set store.1.toNat store.2)
        (List.replicate 32 0)))

/-! ## Canonical compact forms -/

/-- A compact form whose mantissa has a clear sign bit and no leading zeros. -/
structure CanonicalBits where
  exponent : Nat
  mantissa : Nat
  exponentLower : 3 ≤ exponent
  exponentUpper : exponent ≤ 32
  mantissaLower : 0x008000 ≤ mantissa
  mantissaUpper : mantissa ≤ 0x7fffff

namespace CanonicalBits

variable (bits : CanonicalBits)

/-- The value `nbits`. -/
def word : UInt32 :=
  UInt32.ofNat (bits.exponent * 2 ^ 24 + bits.mantissa)

def target : Nat :=
  bits.mantissa * 256 ^ (bits.exponent - 3)

/-- The target as a number of 32 bytes. -/
def targetDigits : LowerDigits 64 :=
  LowerDigits.ofBytes (BigEndian.encode 32 bits.target)
    (by rw [BigEndian.length_encode])

theorem toNat_word :
    bits.word.toNat = bits.exponent * 2 ^ 24 + bits.mantissa := by
  have exponent := bits.exponentUpper
  have mantissa := bits.mantissaUpper
  rw [word, UInt32.toNat_ofNat']
  omega

theorem target_lt : bits.target < 256 ^ 32 := by
  have power :
      256 ^ (bits.exponent - 3) ≤ 256 ^ 29 :=
    Nat.pow_le_pow_right (by decide) (by have := bits.exponentUpper; omega)
  have mantissa := bits.mantissaUpper
  calc
    bits.target ≤ 0x7fffff * 256 ^ 29 := Nat.mul_le_mul mantissa power
    _ < 256 ^ 32 := by decide

theorem text_targetDigits :
    bits.targetDigits.text = hexlify (BigEndian.encode 32 bits.target) := by
  rw [targetDigits, LowerDigits.ofBytes]

theorem number_targetDigits : bits.targetDigits.number = bits.target := by
  have value := BigEndian.value_encode 32 bits.target
  rw [Nat.mod_eq_of_lt bits.target_lt] at value
  rw [LowerDigits.number, text_targetDigits, hexDigitsValue_hexlify, value]

end CanonicalBits

/-! ## The round trip -/

/-- The stores are inside, and the digits lead back to the compact form. -/
structure RoundTrips (bits : CanonicalBits) : Prop where
  inside : ∀ store ∈ bits2targetStores bits.word, store.1.toNat < 32
  digits : bits2target bits.word = bits.targetDigits.text
  back : ∀ outside,
    (target2bits outside (bits2target bits.word)).nbits = bits.word.toNat

/-- Three bytes in a row of an array of zeros. -/
theorem set_replicate (before after : Nat) (low middle high : UInt8) :
    (((List.replicate (before + 3 + after) (0 : UInt8)).set (before + 2)
      high).set (before + 1) middle).set before low =
        List.replicate before 0 ++
          ([low, middle, high] ++ List.replicate after 0) := by
  have zeros :
      List.replicate (before + 3 + after) (0 : UInt8) =
        List.replicate before 0 ++ ([0, 0, 0] ++ List.replicate after 0) := by
    rw [Nat.add_assoc, List.replicate_add, List.replicate_add]
    rfl
  have length : (List.replicate before (0 : UInt8)).length = before :=
    List.length_replicate
  rw [zeros, List.set_append_right _ _ (by rw [length]; omega),
    List.set_append_right _ _ (by rw [length]; omega),
    List.set_append_right _ _ (by rw [length]), length,
    Nat.add_sub_cancel_left, Nat.add_sub_cancel_left, Nat.sub_self]
  rfl

section Stores

variable (bits : CanonicalBits)

theorem toNat_exponent : (bits.word >>> 24).toNat = bits.exponent := by
  have mantissa := bits.mantissaUpper
  have shift : (24 : UInt32).toNat % 32 = 24 := rfl
  rw [UInt32.toNat_shiftRight, shift, Nat.shiftRight_eq_div_pow,
    bits.toNat_word]
  omega

theorem index_eq {offset : UInt32} (small : offset.toNat ≤ 3) :
    (bits.word >>> 24) - offset =
      UInt32.ofNat (bits.exponent - offset.toNat) := by
  have lower := bits.exponentLower
  have upper := bits.exponentUpper
  have exponent := toNat_exponent bits
  have below : offset ≤ bits.word >>> 24 := by
    rw [UInt32.le_iff_toNat_le, exponent]
    omega
  apply UInt32.toNat_inj.mp
  rw [UInt32.toNat_sub_of_le _ _ below, exponent, UInt32.toNat_ofNat',
    Nat.mod_eq_of_lt (by omega)]

theorem lowByte_eq (nbits : UInt32) :
    (nbits &&& 0xff).toUInt8 = UInt8.ofNat nbits.toNat := by
  have mask : (0xff : UInt32).toNat = 2 ^ 8 - 1 := rfl
  apply UInt8.toNat_inj.mp
  rw [UInt32.toNat_toUInt8, UInt32.toNat_and, mask,
    Nat.and_two_pow_sub_one_eq_mod, UInt8.toNat_ofNat']
  exact Nat.mod_mod _ _

/-- The stores put the bytes of the word below the exponent. -/
theorem bits2targetStores_eq :
    bits2targetStores bits.word =
      [(UInt32.ofNat (bits.exponent - 1),
          UInt8.ofNat (bits.word.toNat / 2 ^ 16)),
        (UInt32.ofNat (bits.exponent - 2),
          UInt8.ofNat (bits.word.toNat / 2 ^ 8)),
        (UInt32.ofNat (bits.exponent - 3), UInt8.ofNat bits.word.toNat)] := by
  have nonzero : bits.word ≠ 0 := by
    intro zero
    have lower := bits.exponentLower
    have whole := bits.toNat_word
    rw [zero] at whole
    have zeroWord : (0 : UInt32).toNat = 0 := rfl
    omega
  have shift8 : (bits.word >>> 8).toNat = bits.word.toNat / 2 ^ 8 := by
    rw [UInt32.toNat_shiftRight, Nat.shiftRight_eq_div_pow]
    rfl
  have shift16 : (bits.word >>> 16).toNat = bits.word.toNat / 2 ^ 16 := by
    rw [UInt32.toNat_shiftRight, Nat.shiftRight_eq_div_pow]
    rfl
  rw [bits2targetStores, if_pos nonzero, index_eq bits (by decide),
    index_eq bits (by decide), index_eq bits (by decide), lowByte_eq,
    lowByte_eq, lowByte_eq, shift8, shift16]
  rfl

/-- The bytes that are stored, the highest first. -/
def storedBytes : List UInt8 :=
  [UInt8.ofNat (bits.word.toNat / 2 ^ 16),
    UInt8.ofNat (bits.word.toNat / 2 ^ 8), UInt8.ofNat bits.word.toNat]

theorem value_storedBytes :
    BigEndian.value (storedBytes bits) = bits.mantissa := by
  have upper := bits.mantissaUpper
  rw [storedBytes, BigEndian.value_cons, BigEndian.value_cons,
    BigEndian.value_singleton, UInt8.toNat_ofNat', UInt8.toNat_ofNat',
    UInt8.toNat_ofNat', bits.toNat_word, List.length_cons,
    List.length_singleton]
  omega

/-- The target has the stored bytes between zeros. -/
theorem encode_target {before after : Nat}
    (exponent : bits.exponent = before + 3)
    (room : 32 = before + 3 + after) :
    BigEndian.encode 32 bits.target =
      List.replicate after 0 ++ storedBytes bits ++
        List.replicate before 0 := by
  have length :
      (List.replicate after (0 : UInt8) ++ storedBytes bits ++
        List.replicate before 0).length = 32 := by
    rw [List.length_append, List.length_append, List.length_replicate,
      List.length_replicate]
    change after + 3 + before = 32
    omega
  have third : bits.exponent - 3 = before := by omega
  have encoded := BigEndian.encode_value
    (List.replicate after (0 : UInt8) ++ storedBytes bits ++
      List.replicate before 0)
  rw [length, BigEndian.value_append, BigEndian.value_replicate_zero_append,
    value_storedBytes, BigEndian.value_replicate_zero,
    List.length_replicate, Nat.add_zero] at encoded
  rw [CanonicalBits.target, third, encoded]

/-- The digits are those of the target. -/
theorem bits2target_eq :
    bits2target bits.word = bits.targetDigits.text := by
  obtain ⟨before, exponent⟩ :=
    Nat.exists_eq_add_of_le' bits.exponentLower
  obtain ⟨after, room⟩ := Nat.exists_eq_add_of_le bits.exponentUpper
  rw [exponent] at room
  have small (offset : Nat) :
      (UInt32.ofNat (bits.exponent - offset)).toNat =
        bits.exponent - offset := by
    rw [UInt32.toNat_ofNat', Nat.mod_eq_of_lt (by omega)]
  have first : bits.exponent - 1 = before + 2 := by omega
  have second : bits.exponent - 2 = before + 1 := by omega
  have third : bits.exponent - 3 = before := by omega
  have zeros :
      List.replicate 32 (0 : UInt8) =
        List.replicate (before + 3 + after) 0 := by
    rw [← room]
  rw [bits2target, bits2targetStores_eq, List.foldl_cons, List.foldl_cons,
    List.foldl_cons, List.foldl_nil, small, small, small, first, second,
    third, zeros, set_replicate, stringBe_hexlify, bits.text_targetDigits,
    encode_target bits exponent room, List.reverse_append,
    List.reverse_append, List.reverse_replicate, List.reverse_replicate]
  rfl

end Stores

/-! ## When the round trip succeeds -/

/-- The number of bytes of a canonical target, and its leading bytes. -/
theorem leading_target (bits : CanonicalBits) {count : Nat}
    (lower : 256 ^ count ≤ bits.mantissa)
    (upper : bits.mantissa < 256 ^ (count + 1)) (short : count < 3) :
    CompactTarget.significantBytes bits.target =
        count + (bits.exponent - 3) + 1 ∧
      CompactTarget.leading bits.target =
        bits.mantissa * 256 ^ (2 - count) :=
  CompactTarget.leading_scaled lower upper short (bits.exponent - 3)

theorem getCompact_target (bits : CanonicalBits) :
    CompactTarget.getCompact bits.target = bits.word.toNat := by
  rw [CanonicalBits.target, bits.toNat_word]
  exact CompactTarget.getCompact_scaled bits.exponentLower
    bits.mantissaLower (Nat.lt_succ_of_le bits.mantissaUpper)

/-- With 32 bytes a byte from behind the array changes the exponent. -/
theorem nbits_of_full (bits : CanonicalBits) (full : bits.exponent = 32)
    (three : 0x10000 ≤ bits.mantissa) :
    (target2bits (fun _ => 1) bits.targetDigits.text).nbits ≠
      bits.word.toNat := by
  have upper := bits.mantissaUpper
  obtain ⟨size, leading⟩ :=
    leading_target bits (by omega : 256 ^ 2 ≤ bits.mantissa)
      (by omega) (by decide)
  have bytes : 2 + (bits.exponent - 3) + 1 = 32 := by omega
  rw [bytes, ← bits.number_targetDigits] at size
  have words := hasWords_target bits.targetDigits fun _ => 1
  have above := words.shiftedWords_full size
  have one :
      pnWord (binlify (stringBe bits.targetDigits.text)) (fun _ => 1) 8 =
        1 := by
    rw [pnWord, if_neg (by decide)]
    rfl
  rw [one, bits.number_targetDigits, leading] at above
  rw [target2bits_eq]
  dsimp only
  have raised :
      compactWord (2 ^ 24 * (1 % 256) + bits.mantissa * 256 ^ (2 - 2)) 32 =
        33 * 2 ^ 24 + bits.mantissa := by
    have sign :=
      signBit_iff (2 ^ 24 * (1 % 256) + bits.mantissa * 256 ^ (2 - 2))
    have low : bits.mantissa < 2 ^ 24 := by omega
    have split :
        2 ^ 24 * (1 % 256) + bits.mantissa * 256 ^ (2 - 2) =
          1 <<< 24 ||| bits.mantissa := by
      rw [← Nat.shiftLeft_add_eq_or_of_lt low]
      omega
    have joined : (32 <<< 24 ||| 1 <<< 24 : Nat) = 33 <<< 24 := rfl
    rw [compactWord, if_neg (by rw [sign]; omega), split, Nat.or_comm,
      ← Nat.or_assoc, joined, ← Nat.shiftLeft_add_eq_or_of_lt low,
      Nat.shiftLeft_eq]
  rw [size, above, raised, bits.toNat_word]
  omega

/-- The round trip succeeds for the targets of at most 31 bytes. -/
theorem roundTrips_iff (bits : CanonicalBits) :
    RoundTrips bits ↔ bits.exponent ≤ 31 ∨ bits.mantissa < 0x10000 := by
  have exponentUpper := bits.exponentUpper
  have exponentLower := bits.exponentLower
  have mantissaUpper := bits.mantissaUpper
  have mantissaLower := bits.mantissaLower
  constructor
  · intro trips
    by_contra neither
    have back := trips.back fun _ => 1
    rw [bits2target_eq] at back
    exact nbits_of_full bits (by omega) (by omega) back
  · intro short
    refine ⟨?_, bits2target_eq bits, fun outside => ?_⟩
    · rw [bits2targetStores_eq]
      simp only [List.forall_mem_cons, UInt32.toNat_ofNat']
      refine ⟨by omega, by omega, by omega, ?_⟩
      exact fun _ member => absurd member List.not_mem_nil
    · have few :
          CompactTarget.significantBytes bits.target ≤ 31 := by
        rcases Nat.lt_or_ge bits.mantissa (256 ^ 2) with two | three
        · have size := (leading_target bits (by omega : 256 ^ 1 ≤ _)
            two (by decide)).1
          omega
        · have size := (leading_target bits three (by omega)
            (by decide)).1
          omega
      rw [← bits.number_targetDigits] at few
      rw [bits2target_eq, nbits_of_le _ _ few, bits.number_targetDigits,
        getCompact_target]

/-! ## The limit of the network -/

theorem limitMantissa_le : 0x0f0f0f ≤ 0x7fffff := by decide

/-- The compact form `200f0f0f`. -/
def limitBits : CanonicalBits where
  exponent := 32
  mantissa := 0x0f0f0f
  exponentLower := by decide
  exponentUpper := by decide
  mantissaLower := by decide
  mantissaUpper := limitMantissa_le

theorem not_roundTrips_limitBits : ¬ RoundTrips limitBits := by
  intro trips
  have returned :
      (target2bits (fun _ => 1) (bits2target limitBits.word)).nbits =
        0x210f0f0f := by
    decide
  have back := trips.back fun _ => 1
  rw [returned] at back
  exact absurd back (by decide)

end YiimpStratum.Difficulty
