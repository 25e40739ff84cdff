import Mathlib.Data.List.TakeWhile
import YiimpStratum.Library.Base64
import YiimpStratum.Util.Hex

/-!
# Base64 of the credentials

`base64_encode` and `base64_decode` of `util.cpp`.  The encoder takes its input
apart in groups of three; the characters are signed, so that a byte from 128 on
is a negative number when it is shifted.  The decoder shifts its digits into an
accumulator that it never masks and writes a byte whenever eight bits are there.
-/

namespace YiimpStratum.Util

open YiimpStratum
open YiimpStratum.BitString

/-! ## Encoding -/

/-- The characters of `g_base64_tab`. -/
def gBase64Tab : CString :=
  ['A', 'B', 'C', 'D', 'E', 'F', 'G', 'H', 'I', 'J', 'K', 'L', 'M', 'N', 'O',
    'P', 'Q', 'R', 'S', 'T', 'U', 'V', 'W', 'X', 'Y', 'Z',
    'a', 'b', 'c', 'd', 'e', 'f', 'g', 'h', 'i', 'j', 'k', 'l', 'm', 'n', 'o',
    'p', 'q', 'r', 's', 't', 'u', 'v', 'w', 'x', 'y', 'z',
    '0', '1', '2', '3', '4', '5', '6', '7', '8', '9', '+', '/']

/-- `g_base64_tab[b]`; the terminator is behind the characters. -/
def base64Char (b : UInt8) : Char :=
  gBase64Tab.getD b.toNat '\x00'

/-- A `char` in an expression: it is signed and becomes an `int`. -/
def promoted (c : UInt8) : Int32 :=
  c.toInt8.toInt32

/-- An `int` stored in an `unsigned char`. -/
def stored (value : Int32) : UInt8 :=
  value.toInt8.toUInt8

/-- The loop of `base64_encode` and its two tails. -/
def base64Groups : List UInt8 → CString
  | normal0 :: normal1 :: normal2 :: rest =>
      let b0 := stored ((promoted normal0 >>> 2) &&& 0x3F)
      let b1 :=
        stored
          (((promoted normal0 &&& 0x03) <<< 4) |||
            ((promoted normal1 >>> 4) &&& 0x0F))
      let b2 :=
        stored
          (((promoted normal1 &&& 0x0F) <<< 2) |||
            ((promoted normal2 >>> 6) &&& 0x03))
      let b3 := stored (promoted normal2 &&& 0x3F)
      base64Char b0 :: base64Char b1 :: base64Char b2 :: base64Char b3 ::
        base64Groups rest
  | [normal0, normal1] =>
      let b0 := stored ((promoted normal0 >>> 2) &&& 0x3F)
      let b1 :=
        stored
          (((promoted normal0 &&& 0x03) <<< 4) |||
            ((promoted normal1 >>> 4) &&& 0x0F))
      let b2 := stored (((promoted normal1 &&& 0x0F) <<< 2) ||| 0)
      [base64Char b0, base64Char b1, base64Char b2, '=']
  | [normal0] =>
      let b0 := stored ((promoted normal0 >>> 2) &&& 0x3F)
      let b1 := stored (((promoted normal0 &&& 0x03) <<< 4) ||| 0)
      [base64Char b0, base64Char b1, '=', '=']
  | [] => []

/-- `strlen`: the terminator is the first zero, or behind the bytes. -/
def strlen (normal : List UInt8) : Nat :=
  (normal.takeWhile (· ≠ 0)).length

def base64Encode (normal : List UInt8) : CString :=
  base64Groups (normal.take (strlen normal))

/-! ## Decoding -/

/-- `decoding_tab` -/
def decodingTab : Nat → UInt8 :=
  (List.range 64).foldl
    (fun tab i =>
      Function.update tab (base64Char (UInt8.ofNat i)).toNat (UInt8.ofNat i))
    fun _ => 255

/-- The local variables of the loop of `base64_decode`. -/
structure DecodeState where
  current : UInt64
  bitFilled : Nat
  normal : List UInt8

/-- The rest of the loop, behind its two tests. -/
def decodeStep (state : DecodeState) (digit : UInt8) : DecodeState :=
  let current := (state.current <<< 6) ||| digit.toUInt64
  let bitFilled := state.bitFilled + 6
  if 8 ≤ bitFilled then
    let b := current >>> UInt64.ofNat (bitFilled - 8)
    { current := current
      bitFilled := bitFilled - 8
      normal := state.normal ++ [(b &&& 0xFF).toUInt8] }
  else
    { state with current := current, bitFilled := bitFilled }

/--
The loop of `base64_decode`.  A character from 128 on is a negative index into
the table, which has no such entry.
-/
def decodeLoop : CString → DecodeState → Option DecodeState
  | [], state => some state
  | c :: rest, state =>
      if c = '\n' ∨ c = '\r' ∨ c = ' ' ∨ c = '\t' then decodeLoop rest state
      else if c = '=' then some state
      else if 128 ≤ c.toNat then none
      else decodeLoop rest (decodeStep state (decodingTab c.toNat))

/-- `base64_decode`: the bytes in front of the terminator. -/
def base64Decode (base64 : CString) : Option (List UInt8) :=
  (decodeLoop base64 ⟨0, 0, []⟩).map DecodeState.normal

/-! ## Signed characters -/

theorem smod_amount {amount : Nat} (narrow : amount < 32) :
    (Int32.ofNat amount).toBitVec.smod 32 = BitVec.ofNat 32 amount := by
  have table :
      ∀ amount < 32,
        (Int32.ofNat amount).toBitVec.smod 32 = BitVec.ofNat 32 amount := by
    decide
  exact table amount narrow

/-- The sign is shifted in above the bits that the mask keeps. -/
theorem promoted_field
    (c : UInt8) {shift width : Nat} (inside : shift + width ≤ 8) :
    (promoted c >>> Int32.ofNat shift) &&& Int32.ofNat (2 ^ width - 1) =
      Int32.ofNat (c.toNat / 2 ^ shift % 2 ^ width) := by
  have bits (i : Nat) : c.toBitVec.getLsbD i = c.toNat.testBit i := rfl
  apply Int32.toBitVec.inj
  rw [Int32.toBitVec_and, Int32.toBitVec_shiftRight, BitVec.sshiftRight',
    smod_amount (by omega), BitVec.toNat_ofNat,
    Nat.mod_eq_of_lt (show shift < 2 ^ 32 by omega)]
  apply BitVec.eq_of_getLsbD_eq
  intro i below
  simp only [promoted, Int32.toBitVec_ofNat', UInt8.toBitVec_toInt8,
    Int8.toBitVec_toInt32, BitVec.getLsbD_and, BitVec.getLsbD_sshiftRight,
    BitVec.getLsbD_signExtend, BitVec.getLsbD_ofNat,
    Nat.testBit_mod_two_pow, Nat.testBit_div_two_pow,
    Nat.testBit_two_pow_sub_one, bits]
  by_cases inField : i < width
  · have inByte : shift + i < 8 := by omega
    have inWord : shift + i < 32 := by omega
    simp [inField, inByte, inWord, below, Nat.add_comm i]
  · simp [inField]

theorem promoted_low (c : UInt8) {width : Nat} (inside : width ≤ 8) :
    promoted c &&& Int32.ofNat (2 ^ width - 1) =
      Int32.ofNat (c.toNat % 2 ^ width) := by
  have unshifted : promoted c >>> Int32.ofNat 0 = promoted c := by
    apply Int32.toBitVec.inj
    exact BitVec.sshiftRight_zero
  have field := @promoted_field c 0 width (by omega)
  rwa [unshifted, pow_zero, Nat.div_one] at field

/-- Two parts of a digit put together. -/
theorem ofNat_shiftLeft_or
    {upper lower width : Nat} (narrow : width < 32)
    (small : lower < 2 ^ width) :
    (Int32.ofNat upper <<< Int32.ofNat width) ||| Int32.ofNat lower =
      Int32.ofNat (upper * 2 ^ width + lower) := by
  apply Int32.toBitVec.inj
  rw [Int32.toBitVec_or, Int32.toBitVec_shiftLeft, smod_amount narrow,
    BitVec.shiftLeft_eq', BitVec.toNat_ofNat,
    Nat.mod_eq_of_lt (show width < 2 ^ 32 by omega), Nat.mul_comm upper]
  apply BitVec.eq_of_getLsbD_eq
  intro i below
  simp only [Int32.toBitVec_ofNat', BitVec.getLsbD_or,
    BitVec.getLsbD_shiftLeft, BitVec.getLsbD_ofNat,
    Nat.testBit_two_pow_mul_add _ small]
  by_cases low : i < width
  · simp [low, below]
  · have outside : lower.testBit i = false :=
      Nat.testBit_lt_two_pow
        (small.trans_le (Nat.pow_le_pow_right (by omega) (not_lt.mp low)))
    have shifted : i - width < 32 := by omega
    simp [low, below, outside, shifted]

/-- A digit that is stored selects its character. -/
theorem base64Char_stored {digit : Nat} (small : digit < 64) :
    base64Char (stored (Int32.ofNat digit)) = Base64.alphabet digit := by
  have table :
      ∀ digit < 64, gBase64Tab.getD digit '\x00' = Base64.alphabet digit := by
    decide
  have number : (stored (Int32.ofNat digit)).toNat = digit := by
    rw [stored]
    simp
    omega
  rw [base64Char, number]
  exact table digit small

section Digits

variable (normal0 normal1 : UInt8)

/-- The digit of the upper six bits. -/
theorem base64Char_upper :
    base64Char (stored ((promoted normal0 >>> 2) &&& 0x3F)) =
      Base64.alphabet (normal0.toNat / 4) := by
  have bound : normal0.toNat < 256 := normal0.toNat_lt
  have field := @promoted_field normal0 2 6 (by omega)
  rw [Nat.mod_eq_of_lt (by omega)] at field
  exact (congrArg (base64Char ∘ stored) field).trans
    (base64Char_stored (by omega))

/-- The digit of the lower six bits. -/
theorem base64Char_lower :
    base64Char (stored (promoted normal0 &&& 0x3F)) =
      Base64.alphabet (normal0.toNat % 64) := by
  have field := @promoted_low normal0 6 (by omega)
  exact (congrArg (base64Char ∘ stored) field).trans
    (base64Char_stored (Nat.mod_lt _ (by omega)))

variable {upper lower : Nat}

/-- The digit across the boundary of two bytes. -/
theorem base64Char_across (widths : upper + lower = 6) :
    base64Char
        (stored
          (((promoted normal0 &&& Int32.ofNat (2 ^ upper - 1)) <<<
              Int32.ofNat lower) |||
            ((promoted normal1 >>> Int32.ofNat (8 - lower)) &&&
              Int32.ofNat (2 ^ lower - 1)))) =
      Base64.alphabet
        (normal0.toNat % 2 ^ upper * 2 ^ lower +
          normal1.toNat / 2 ^ (8 - lower)) := by
  have upperSmall : normal0.toNat % 2 ^ upper < 2 ^ upper :=
    Nat.mod_lt _ (Nat.two_pow_pos upper)
  have lowerSmall : normal1.toNat / 2 ^ (8 - lower) < 2 ^ lower := by
    rw [Nat.div_lt_iff_lt_mul (Nat.two_pow_pos _), ← pow_add]
    have eight : lower + (8 - lower) = 8 := by omega
    rw [eight]
    exact normal1.toNat_lt
  have small :
      normal0.toNat % 2 ^ upper * 2 ^ lower +
          normal1.toNat / 2 ^ (8 - lower) < 64 := by
    have power : 2 ^ upper * 2 ^ lower = 64 := by
      rw [← pow_add, widths]
      rfl
    have below := Nat.mul_le_mul_right (2 ^ lower) upperSmall
    rw [Nat.succ_mul, power] at below
    omega
  rw [promoted_low normal0 (by omega), promoted_field normal1 (by omega),
    Nat.mod_eq_of_lt lowerSmall, ofNat_shiftLeft_or (by omega) lowerSmall]
  exact base64Char_stored small

/-- The digit that zeros fill up. -/
theorem base64Char_last (widths : upper + lower = 6) :
    base64Char
        (stored
          (((promoted normal0 &&& Int32.ofNat (2 ^ upper - 1)) <<<
              Int32.ofNat lower) ||| 0)) =
      Base64.alphabet (normal0.toNat % 2 ^ upper * 2 ^ lower) := by
  have across := base64Char_across normal0 0 widths
  rw [promoted_field 0 (by omega)] at across
  simpa using across

end Digits

/-- The first two bytes of a group have a digit in common. -/
theorem base64Char_b1 (normal0 normal1 : UInt8) :
    base64Char
        (stored
          (((promoted normal0 &&& 0x03) <<< 4) |||
            ((promoted normal1 >>> 4) &&& 0x0F))) =
      Base64.alphabet (normal0.toNat % 4 * 16 + normal1.toNat / 16) :=
  @base64Char_across normal0 normal1 2 4 rfl

/-- So have the last two. -/
theorem base64Char_b2 (normal1 normal2 : UInt8) :
    base64Char
        (stored
          (((promoted normal1 &&& 0x0F) <<< 2) |||
            ((promoted normal2 >>> 6) &&& 0x03))) =
      Base64.alphabet (normal1.toNat % 16 * 4 + normal2.toNat / 64) :=
  @base64Char_across normal1 normal2 4 2 rfl

theorem base64Char_b1_last (normal0 : UInt8) :
    base64Char (stored (((promoted normal0 &&& 0x03) <<< 4) ||| 0)) =
      Base64.alphabet (normal0.toNat % 4 * 16) :=
  @base64Char_last normal0 2 4 rfl

theorem base64Char_b2_last (normal1 : UInt8) :
    base64Char (stored (((promoted normal1 &&& 0x0F) <<< 2) ||| 0)) =
      Base64.alphabet (normal1.toNat % 16 * 4) :=
  @base64Char_last normal1 4 2 rfl

/-- The groups are written as the encoding demands. -/
theorem base64Groups_eq (normal : List UInt8) :
    base64Groups normal = Base64.encode normal := by
  induction normal using base64Groups.induct with
  | case1 normal0 normal1 normal2 rest ih =>
      have split :
          normal0 :: normal1 :: normal2 :: rest =
            [normal0, normal1, normal2] ++ rest :=
        rfl
      have whole : 3 ∣ [normal0, normal1, normal2].length :=
        Nat.dvd_refl 3
      rw [base64Groups, split, Base64.encode_append whole,
        Base64.digits_three, base64Char_upper, base64Char_b1, base64Char_b2,
        base64Char_lower, ih]
      rfl
  | case2 normal0 normal1 =>
      rw [base64Groups, Base64.encode, Base64.digits_two, base64Char_upper,
        base64Char_b1, base64Char_b2_last]
      rfl
  | case3 normal0 =>
      rw [base64Groups, Base64.encode, Base64.digits_one, base64Char_upper,
        base64Char_b1_last]
      rfl
  | case4 =>
      rfl

/-! ## The accumulator of the decoder -/

/--
After the digits, the accumulator holds their bits modulo the word size, counts
those that are not part of a complete byte, and all complete bytes have been
written.
-/
structure DecodeInvariant (digits : List Nat) (state : DecodeState) :
    Prop where
  current_eq : state.current.toNat = ofBits (written 6 digits) % 2 ^ 64
  bitFilled_eq : state.bitFilled = (written 6 digits).length % 8
  normal_eq : state.normal.map UInt8.toNat = groups 8 (written 6 digits)

theorem DecodeInvariant.initial : DecodeInvariant [] ⟨0, 0, []⟩ where
  current_eq := rfl
  bitFilled_eq := rfl
  normal_eq := (groups_of_short (by decide)).symm

theorem DecodeInvariant.step
    {digits : List Nat} {state : DecodeState}
    (invariant : DecodeInvariant digits state) {digit : Nat}
    (small : digit < 64) :
    DecodeInvariant (digits ++ [digit])
      (decodeStep state (UInt8.ofNat digit)) := by
  have bitFilled_eq := invariant.bitFilled_eq
  have six : (toBits 6 digit).length = 6 := length_toBits 6 digit
  have joined :
      written 6 (digits ++ [digit]) = written 6 digits ++ toBits 6 digit := by
    rw [written_append, written_cons, written_nil, List.append_nil]
  have number : (UInt8.ofNat digit).toUInt64.toNat = digit := by
    rw [UInt8.toNat_toUInt64, UInt8.toNat_ofNat', Nat.mod_eq_of_lt (by omega)]
  have accumulated :
      ((state.current <<< 6) ||| (UInt8.ofNat digit).toUInt64).toNat =
        ofBits (written 6 (digits ++ [digit])) % 2 ^ 64 := by
    have reduced : digit % 2 ^ 6 = digit := Nat.mod_eq_of_lt small
    rw [joined, ofBits_append, six, ofBits_toBits, reduced]
    have shifted :=
      @shiftIn_toNat _ _ 6 (UInt8.ofNat digit).toUInt64 (by omega)
        (number.trans_lt small) invariant.current_eq
    rwa [number] at shifted
  by_cases complete : 8 ≤ state.bitFilled + 6
  · obtain ⟨grown, left⟩ :=
      @groups_append_of_le 8 (written 6 digits) (toBits 6 digit) (by omega)
        (by omega)
    rw [← joined, six, ← bitFilled_eq] at grown left
    have byte :=
      @shiftOut_toNat _ _ (state.bitFilled + 6 - 8) 8 (by omega) (by omega)
        accumulated
    rw [decodeStep]
    simp only [complete, if_true]
    refine ⟨accumulated, left.symm, ?_⟩
    have mask : UInt64.toNat 0xFF = 2 ^ 8 - 1 := rfl
    rw [List.map_append, invariant.normal_eq, grown, List.map_singleton,
      UInt64.toNat_toUInt8, UInt64.toNat_and, mask,
      Nat.and_two_pow_sub_one_eq_mod, byte, Nat.mod_mod]
  · obtain ⟨same, left⟩ :=
      @groups_append_of_lt 8 (written 6 digits) (toBits 6 digit) (by omega)
    rw [← joined, six, ← bitFilled_eq] at left
    rw [← joined] at same
    rw [decodeStep]
    simp only [complete, if_false]
    exact ⟨accumulated, left.symm, invariant.normal_eq.trans same.symm⟩

/-- A character of the alphabet ends nothing and stands for its digit. -/
theorem alphabet_spec {digit : Nat} (small : digit < 64) :
    ¬ (Base64.alphabet digit = '\n' ∨ Base64.alphabet digit = '\r' ∨
          Base64.alphabet digit = ' ' ∨ Base64.alphabet digit = '\t') ∧
      Base64.alphabet digit ≠ '=' ∧ ¬ 128 ≤ (Base64.alphabet digit).toNat ∧
        decodingTab (Base64.alphabet digit).toNat = UInt8.ofNat digit := by
  have table :
      ∀ digit < 64,
        ¬ (Base64.alphabet digit = '\n' ∨ Base64.alphabet digit = '\r' ∨
              Base64.alphabet digit = ' ' ∨ Base64.alphabet digit = '\t') ∧
          Base64.alphabet digit ≠ '=' ∧
            ¬ 128 ≤ (Base64.alphabet digit).toNat ∧
              decodingTab (Base64.alphabet digit).toNat =
                UInt8.ofNat digit := by
    decide
  exact table digit small

/-- The loop takes the characters of all digits. -/
theorem DecodeInvariant.run
    {digits : List Nat} (small : ∀ digit ∈ digits, digit < 64)
    (rest : CString) {consumed : List Nat} {state : DecodeState}
    (invariant : DecodeInvariant consumed state) :
    ∃ state',
      decodeLoop (digits.map Base64.alphabet ++ rest) state =
          decodeLoop rest state' ∧
        DecodeInvariant (consumed ++ digits) state' := by
  induction digits generalizing consumed state with
  | nil =>
      refine ⟨state, rfl, ?_⟩
      rw [List.append_nil]
      exact invariant
  | cons digit digits ih =>
      have digitSmall := small digit List.mem_cons_self
      obtain ⟨notSkipped, notEnd, inTable, isDigit⟩ := alphabet_spec digitSmall
      obtain ⟨state', taken, invariant'⟩ :=
        ih (fun other member => small other (List.mem_cons_of_mem _ member))
          (invariant.step digitSmall)
      refine ⟨state', ?_, ?_⟩
      · rw [List.map_cons, List.cons_append, decodeLoop, if_neg notSkipped,
          if_neg notEnd, if_neg inTable, isDigit]
        exact taken
      · rw [List.append_cons]
        exact invariant'

/-- The padding ends the loop. -/
theorem decodeLoop_padding (count : Nat) (state : DecodeState) :
    decodeLoop (Base64.padding count) state = some state := by
  rw [Base64.padding]
  cases (4 - count % 4) % 4 with
  | zero =>
      rfl
  | succ pads =>
      rfl

/-- The text of a byte string is decoded to it, whatever the bytes are. -/
theorem base64Decode_encode (bytes : List UInt8) :
    base64Decode (Base64.encode bytes) = some bytes := by
  obtain ⟨state, taken, invariant⟩ :=
    DecodeInvariant.initial.run (fun _ => Base64.digits_lt)
      (Base64.padding (Base64.digits bytes).length)
  have decoded : state.normal.map UInt8.toNat = bytes.map UInt8.toNat :=
    invariant.normal_eq.trans (Base64.groups_written_digits bytes)
  have same : state.normal = bytes :=
    List.map_injective_iff.mpr (fun _ _ => UInt8.toNat.inj) decoded
  rw [base64Decode, Base64.encode, taken, decodeLoop_padding, Option.map_some,
    same]

/-! ## The round trip -/

theorem strlen_of_not_mem {normal : List UInt8} (noNul : 0 ∉ normal) :
    strlen normal = normal.length := by
  have all : ∀ byte ∈ normal, decide (byte ≠ 0) = true := by
    intro byte member
    refine decide_eq_true ?_
    rintro rfl
    exact noNul member
  rw [strlen, List.takeWhile_eq_self_iff.mpr all]

/--
A byte string without a zero is written in its encoding with padding, and read
back from it.
-/
theorem base64_roundTrip {normal : List UInt8} (noNul : 0 ∉ normal) :
    base64Encode normal = Base64.encode normal ∧
      base64Decode (base64Encode normal) = some normal := by
  have encoded : base64Encode normal = Base64.encode normal := by
    rw [base64Encode, strlen_of_not_mem noNul, List.take_length,
      base64Groups_eq]
  refine ⟨encoded, ?_⟩
  rw [encoded]
  exact base64Decode_encode normal

/-- Four bytes, two of them negative as characters. -/
theorem base64_fourBytes :
    base64Encode [0x7a, 0xc3, 0xbc, 0x3a] =
        Base64.encode [0x7a, 0xc3, 0xbc, 0x3a] ∧
      base64Decode (base64Encode [0x7a, 0xc3, 0xbc, 0x3a]) =
        some [0x7a, 0xc3, 0xbc, 0x3a] :=
  base64_roundTrip (by decide)

example :
    base64Encode [0x7a, 0xc3, 0xbc, 0x3a] =
      ['e', 's', 'O', '8', 'O', 'g', '=', '='] := by
  decide

end YiimpStratum.Util
