import Mathlib.Data.UInt
import YiimpStratum.Library.BitString

/-!
# Bit expansion of hash outputs and solutions

`expandArray` of `algos/equi.c` walks over a byte string with a 64-bit
accumulator and writes, for every `bitLen` bits read, one padded big-endian
element.  The definition below keeps the loop, the accumulator and its
wrap-around.

The main theorem removes them: the output is the list of consecutive bit
fields of the input, each written in big-endian order behind `bytePad` zero
bytes.  The range of `bitLen` is the one asserted by the source.
-/

namespace YiimpStratum.Equihash

open YiimpStratum
open YiimpStratum.BitString

/-! ## The loop -/

/-- The local variables of the loop of `expandArray`. -/
structure ExpandState where
  accBits : Nat
  accValue : UInt64
  out : List UInt8

/-- `bit_len_mask` -/
def bitLenMask (bitLen : Nat) : UInt64 :=
  ((1 : UInt64) <<< UInt64.ofNat bitLen) - 1

/-- One byte of an element, `shift` bits above its least significant byte. -/
def elementByte
    (bitLen accBits : Nat) (accValue : UInt64) (shift : Nat) : UInt8 :=
  ((accValue >>> UInt64.ofNat (accBits + shift)) &&&
    ((bitLenMask bitLen >>> UInt64.ofNat shift) &&& 0xFF)).toUInt8

/-- The body of the loop over the input bytes. -/
def expandStep
    (bitLen bytePad : Nat) (state : ExpandState) (byte : UInt8) :
    ExpandState :=
  let outWidth := (bitLen + 7) / 8 + bytePad
  let accValue := (state.accValue <<< 8) ||| byte.toUInt64
  let accBits := state.accBits + 8
  if bitLen ≤ accBits then
    let accBits := accBits - bitLen
    { accBits := accBits
      accValue := accValue
      out :=
        state.out ++
          (List.replicate bytePad 0 ++
            (List.range' bytePad (outWidth - bytePad)).map fun x =>
              elementByte bitLen accBits accValue (8 * (outWidth - x - 1))) }
  else
    { state with accBits := accBits, accValue := accValue }

/-- `expandArray`: the bytes written to `out`, in order. -/
def expandArray (input : List UInt8) (bitLen bytePad : Nat) : List UInt8 :=
  (input.foldl (expandStep bitLen bytePad)
    { accBits := 0, accValue := 0, out := [] }).out

/-! ## What one element is -/

/-- The element written for one bit field. -/
def element (bitLen bytePad fieldValue : Nat) : List UInt8 :=
  List.replicate bytePad 0 ++
    BigEndian.encode ((bitLen + 7) / 8) fieldValue

@[simp]
theorem length_element (bitLen bytePad fieldValue : Nat) :
    (element bitLen bytePad fieldValue).length =
      (bitLen + 7) / 8 + bytePad := by
  simp [element, Nat.add_comm]

theorem bitLenMask_toNat
    {bitLen : Nat} (upper : bitLen ≤ 57) :
    (bitLenMask bitLen).toNat = 2 ^ bitLen - 1 := by
  have powerBound : 2 ^ bitLen < 2 ^ 64 :=
    Nat.pow_lt_pow_right (by omega) (by omega)
  have powerPos : 0 < 2 ^ bitLen :=
    Nat.two_pow_pos bitLen
  have shifted :
      ((1 : UInt64) <<< UInt64.ofNat bitLen).toNat = 2 ^ bitLen := by
    rw [UInt64.toNat_shiftLeft, UInt64.toNat_ofNat',
      Nat.mod_eq_of_lt (show bitLen < 2 ^ 64 by omega),
      Nat.mod_eq_of_lt (show bitLen < 64 by omega), UInt64.toNat_one,
      Nat.one_shiftLeft, Nat.mod_eq_of_lt powerBound]
  have ordered : (1 : UInt64) ≤ (1 : UInt64) <<< UInt64.ofNat bitLen := by
    rw [UInt64.le_iff_toNat_le, shifted, UInt64.toNat_one]
    exact powerPos
  rw [bitLenMask, UInt64.toNat_sub_of_le _ _ ordered, shifted,
    UInt64.toNat_one]

/-- The masked shift of the accumulator reads one byte of the bit field. -/
theorem elementByte_eq
    {bitLen accBits shift number : Nat} {accValue : UInt64}
    (upper : bitLen ≤ 57)
    (fewBits : accBits < 8)
    (shiftBound : shift < 57)
    (accumulated : accValue.toNat = number % 2 ^ 64) :
    elementByte bitLen accBits accValue shift =
      UInt8.ofNat (number / 2 ^ accBits % 2 ^ bitLen / 2 ^ shift % 256) := by
  apply UInt8.toNat.inj
  rw [elementByte, UInt64.toNat_toUInt8, UInt64.toNat_and,
    UInt64.toNat_and, UInt64.toNat_shiftRight, UInt64.toNat_shiftRight,
    UInt64.toNat_ofNat', UInt64.toNat_ofNat', bitLenMask_toNat upper,
    accumulated, UInt8.toNat_ofNat']
  rw [Nat.mod_eq_of_lt (show accBits + shift < 2 ^ 64 by omega),
    Nat.mod_eq_of_lt (show accBits + shift < 64 by omega),
    Nat.mod_eq_of_lt (show shift < 2 ^ 64 by omega),
    Nat.mod_eq_of_lt (show shift < 64 by omega)]
  rw [← Nat.shiftRight_eq_div_pow, ← Nat.shiftRight_eq_div_pow]
  apply Nat.eq_of_testBit_eq
  intro bit
  have lowByte : UInt64.toNat 0xFF = 2 ^ 8 - 1 := rfl
  have wide : (256 : Nat) = 2 ^ 8 := rfl
  rw [lowByte, wide]
  simp only [Nat.testBit_mod_two_pow, Nat.testBit_and,
    Nat.testBit_shiftRight, Nat.testBit_two_pow_sub_one]
  have insideWord :
      bit < 8 → shift + bit < bitLen → accBits + (shift + bit) < 64 := by
    omega
  by_cases low : bit < 8
  · by_cases inField : shift + bit < bitLen
    · have inWord := insideWord low inField
      simp [low, inField, inWord, Nat.add_assoc]
    · simp [inField]
  · simp [low]

/-- The bytes written for one element are the encoding of its bit field. -/
theorem elementBytes_eq
    {bitLen accBits number : Nat} {accValue : UInt64} (bytePad : Nat)
    (upper : bitLen ≤ 57)
    (fewBits : accBits < 8)
    (accumulated : accValue.toNat = number % 2 ^ 64) :
    (List.range' bytePad ((bitLen + 7) / 8 + bytePad - bytePad)).map
        (fun x =>
          elementByte bitLen accBits accValue
            (8 * ((bitLen + 7) / 8 + bytePad - x - 1))) =
      BigEndian.encode ((bitLen + 7) / 8)
        (number / 2 ^ accBits % 2 ^ bitLen) := by
  rw [BigEndian.encode_eq_map, Nat.add_sub_cancel, List.range'_eq_map_range,
    List.map_map]
  apply List.map_congr_left
  intro index member
  have bound := List.mem_range.mp member
  have position :
      (bitLen + 7) / 8 + bytePad - (bytePad + index) - 1 =
        (bitLen + 7) / 8 - 1 - index := by
    omega
  have weight :
      (256 : Nat) ^ ((bitLen + 7) / 8 - 1 - index) =
        2 ^ (8 * ((bitLen + 7) / 8 - 1 - index)) := by
    rw [pow_mul]
    rfl
  rw [Function.comp_apply, position, weight]
  exact elementByte_eq upper fewBits (by omega) accumulated

/-! ## The loop invariant -/

/-- The elements complete after `total` bits of value `number`. -/
def elements (bitLen bytePad total number : Nat) : List UInt8 :=
  (List.range (total / bitLen)).flatMap fun index =>
    element bitLen bytePad (BigEndian.field total bitLen number index)

/--
After the bytes `consumed`, the accumulator holds their number modulo the
word size, counts the bits that are not part of a complete element, and all
complete elements have been written.
-/
structure ExpandInvariant
    (bitLen bytePad : Nat) (consumed : List UInt8) (state : ExpandState) :
    Prop where
  accBits_eq : state.accBits = 8 * consumed.length % bitLen
  accValue_eq : state.accValue.toNat = BigEndian.value consumed % 2 ^ 64
  out_eq :
    state.out =
      elements bitLen bytePad (8 * consumed.length)
        (BigEndian.value consumed)

theorem ExpandInvariant.initial (bitLen bytePad : Nat) :
    ExpandInvariant bitLen bytePad []
      { accBits := 0, accValue := 0, out := [] } where
  accBits_eq := by simp
  accValue_eq := by simp
  out_eq := by simp [elements]

/-- The elements are those of the groups of bits. -/
theorem elements_eq (bitLen bytePad : Nat) (input : List UInt8) :
    elements bitLen bytePad (8 * input.length) (BigEndian.value input) =
      (groups bitLen (bits input)).flatMap (element bitLen bytePad) := by
  rw [groups_eq_map_field, List.flatMap_map, length_bits, ofBits_bits]
  rfl

theorem ExpandInvariant.step
    {bitLen bytePad : Nat} {consumed : List UInt8} {state : ExpandState}
    (lower : 8 ≤ bitLen) (upper : bitLen ≤ 57)
    (invariant : ExpandInvariant bitLen bytePad consumed state)
    (byte : UInt8) :
    ExpandInvariant bitLen bytePad (consumed ++ [byte])
      (expandStep bitLen bytePad state byte) := by
  have pending : 8 * consumed.length % bitLen < bitLen :=
    Nat.mod_lt _ (by omega)
  have accumulated :
      ((state.accValue <<< 8) ||| byte.toUInt64).toNat =
        BigEndian.value (consumed ++ [byte]) % 2 ^ 64 := by
    rw [BigEndian.value_snoc]
    exact
      @shiftIn_toNat _ _ 8 byte.toUInt64 (by omega) byte.toNat_lt
        invariant.accValue_eq
  have accBits_eq := invariant.accBits_eq
  have written := invariant.out_eq
  rw [← length_bits] at accBits_eq pending
  rw [elements_eq] at written
  have eight : (bits [byte]).length = 8 := length_bits [byte]
  by_cases complete : bitLen ≤ state.accBits + 8
  · have fewBits : state.accBits + 8 - bitLen < 8 := by omega
    obtain ⟨grown, left⟩ :=
      @groups_append_of_le bitLen (bits consumed) (bits [byte])
        (by omega) (by omega)
    rw [← bits_append, eight, ← accBits_eq] at grown left
    rw [expandStep]
    simp only [complete, if_true]
    refine ⟨?_, accumulated, ?_⟩
    · rw [← length_bits, left]
    · change state.out ++ (List.replicate bytePad 0 ++ List.map _ _) = _
      rw [elementBytes_eq bytePad upper fewBits accumulated, elements_eq,
        grown, List.flatMap_append, ← written, List.flatMap_singleton,
        ofBits_bits, element]
  · obtain ⟨same, left⟩ :=
      @groups_append_of_lt bitLen (bits consumed) (bits [byte]) (by omega)
    rw [← bits_append, eight, ← accBits_eq] at left
    rw [← bits_append] at same
    rw [expandStep]
    simp only [complete, if_false]
    refine ⟨?_, accumulated, ?_⟩
    · rw [← length_bits, left]
    · rw [elements_eq, same, ← written]

theorem ExpandInvariant.run
    {bitLen bytePad : Nat}
    (lower : 8 ≤ bitLen) (upper : bitLen ≤ 57)
    (input : List UInt8) :
    ExpandInvariant bitLen bytePad input
      (input.foldl (expandStep bitLen bytePad)
        { accBits := 0, accValue := 0, out := [] }) := by
  induction input using List.reverseRecOn with
  | nil =>
      exact ExpandInvariant.initial bitLen bytePad
  | append_singleton bytes byte ih =>
      rw [List.foldl_append]
      exact ih.step lower upper byte

/-- `expandArray` writes exactly the padded encodings of the bit fields. -/
theorem expandArray_eq_elements
    {bitLen : Nat} (bytePad : Nat)
    (lower : 8 ≤ bitLen) (upper : bitLen ≤ 57)
    (input : List UInt8) :
    expandArray input bitLen bytePad =
      elements bitLen bytePad (8 * input.length) (BigEndian.value input) :=
  (ExpandInvariant.run lower upper input).out_eq

/--
When the bits of the input are whole elements, the output has exactly these
elements, each the encoding of its bits behind the padding, and the length
that the source asserts.
-/
theorem expandArray_exact
    {bitLen : Nat} (bytePad : Nat)
    (lower : 8 ≤ bitLen) (upper : bitLen ≤ 57)
    (input : List UInt8) (whole : bitLen ∣ 8 * input.length) :
    expandArray input bitLen bytePad =
        (List.range (8 * input.length / bitLen)).flatMap (fun j =>
          List.replicate bytePad 0 ++
            BigEndian.encode ((bitLen + 7) / 8)
              (ofBits (((bits input).drop (j * bitLen)).take bitLen))) ∧
      (expandArray input bitLen bytePad).length =
        8 * ((bitLen + 7) / 8 + bytePad) * input.length / bitLen := by
  have written :
      expandArray input bitLen bytePad =
        (List.range (8 * input.length / bitLen)).flatMap fun j =>
          element bitLen bytePad (group bitLen (bits input) j) := by
    rw [expandArray_eq_elements bytePad lower upper, elements_eq, groups,
      List.flatMap_map, length_bits]
  refine ⟨written, ?_⟩
  obtain ⟨count, length⟩ := whole
  have product :
      8 * ((bitLen + 7) / 8 + bytePad) * input.length =
        bitLen * (count * ((bitLen + 7) / 8 + bytePad)) := by
    rw [Nat.mul_right_comm, length, Nat.mul_assoc]
  rw [written, product, length, Nat.mul_div_cancel_left _ (by omega),
    Nat.mul_div_cancel_left _ (by omega), List.length_flatMap]
  simp only [length_element]
  rw [List.map_const', List.sum_replicate_nat, List.length_range]

/-- Two elements of twenty bits. -/
theorem expandArray_twoElements :
    expandArray [0x12, 0x34, 0x56, 0x78, 0x9a] 20 1 =
        [0x00, 0x01, 0x23, 0x45, 0x00, 0x06, 0x78, 0x9a] ∧
      (expandArray [0x12, 0x34, 0x56, 0x78, 0x9a] 20 1).length = 8 := by
  obtain ⟨written, length⟩ :=
    @expandArray_exact 20 1 (by decide) (by decide)
      [0x12, 0x34, 0x56, 0x78, 0x9a] (by decide)
  refine ⟨written.trans ?_, length⟩
  decide

end YiimpStratum.Equihash
