import Mathlib.Data.List.Induction
import Mathlib.Data.Nat.Bitwise
import Mathlib.Tactic.Ring

/-!
# Big-endian byte strings and their bit fields

A byte string is read as the natural number it denotes with the most
significant byte first.  The bit field of width `width` that starts after
`skip` leading fields of the same width is then a quotient and a remainder of
that number.

The module also records that bit fields commute with exclusive or, so that a
fold of exclusive ors may be taken before or after the fields are extracted.
-/

namespace YiimpStratum.BigEndian

/-! ## The number denoted by a byte string -/

/-- The natural number with the given big-endian bytes. -/
def value (bytes : List UInt8) : Nat :=
  bytes.foldl (fun number byte => number * 256 + byte.toNat) 0

@[simp]
theorem value_nil : value [] = 0 :=
  rfl

@[simp]
theorem value_snoc (bytes : List UInt8) (byte : UInt8) :
    value (bytes ++ [byte]) = value bytes * 256 + byte.toNat := by
  simp [value]

@[simp]
theorem value_singleton (byte : UInt8) :
    value [byte] = byte.toNat := by
  simp [value]

/-- Bytes in front count by the number of those behind. -/
theorem value_append (left right : List UInt8) :
    value (left ++ right) =
      value left * 256 ^ right.length + value right := by
  induction right using List.reverseRecOn with
  | nil =>
      simp
  | append_singleton bytes byte ih =>
      rw [← List.append_assoc, value_snoc, ih, value_snoc,
        List.length_append, List.length_singleton, pow_succ]
      ring

theorem value_cons (byte : UInt8) (bytes : List UInt8) :
    value (byte :: bytes) =
      byte.toNat * 256 ^ bytes.length + value bytes := by
  simpa using value_append [byte] bytes

/-- Bytes denote a number below the power of their count. -/
theorem value_lt (bytes : List UInt8) :
    value bytes < 256 ^ bytes.length := by
  induction bytes using List.reverseRecOn with
  | nil =>
      simp
  | append_singleton bytes byte ih =>
      have byteBound : byte.toNat < 256 :=
        byte.toNat_lt
      rw [value_snoc, List.length_append, List.length_singleton, pow_succ]
      omega

theorem value_replicate_zero (count : Nat) :
    value (List.replicate count 0) = 0 := by
  induction count with
  | zero =>
      rfl
  | succ count ih =>
      rw [List.replicate_succ, value_cons, ih]
      simp

theorem value_replicate_zero_append (count : Nat) (bytes : List UInt8) :
    value (List.replicate count 0 ++ bytes) = value bytes := by
  rw [value_append, value_replicate_zero]
  simp

/-- Dropping trailing bytes divides the number by their weight. -/
theorem value_take (bytes : List UInt8) (count : Nat) :
    value (bytes.take count) =
      value bytes / 256 ^ (bytes.length - count) := by
  have split :
      value bytes =
        value (bytes.take count) * 256 ^ (bytes.length - count) +
          value (bytes.drop count) := by
    simpa using value_append (bytes.take count) (bytes.drop count)
  have tailBound :
      value (bytes.drop count) < 256 ^ (bytes.length - count) := by
    simpa using value_lt (bytes.drop count)
  have weightPos : 0 < 256 ^ (bytes.length - count) :=
    Nat.pow_pos (by omega)
  rw [split, Nat.mul_comm, Nat.mul_add_div weightPos,
    Nat.div_eq_of_lt tailBound, Nat.add_zero]

/-! ## Fixed-width encodings -/

/-- The `width` big-endian bytes of a number; higher bits are dropped. -/
def encode : Nat → Nat → List UInt8
  | 0, _ => []
  | width + 1, number =>
      encode width (number / 256) ++ [UInt8.ofNat (number % 256)]

/-- As many bytes are written as the width says. -/
@[simp]
theorem length_encode (width number : Nat) :
    (encode width number).length = width := by
  induction width generalizing number with
  | zero =>
      rfl
  | succ width ih =>
      simp [encode, ih]

/-- A number is read back modulo the width. -/
@[simp]
theorem value_encode (width number : Nat) :
    value (encode width number) = number % 256 ^ width := by
  induction width generalizing number with
  | zero =>
      simp [encode, Nat.mod_one]
  | succ width ih =>
      have digit : (UInt8.ofNat (number % 256)).toNat = number % 256 := by
        simp
      rw [encode, value_snoc, ih, digit, pow_succ', Nat.mod_mul]
      ring

/-- A byte string is the encoding of its number. -/
theorem encode_value (bytes : List UInt8) :
    encode bytes.length (value bytes) = bytes := by
  induction bytes using List.reverseRecOn with
  | nil =>
      rfl
  | append_singleton bytes byte ih =>
      have bound : byte.toNat < 256 := byte.toNat_lt
      have high : (value bytes * 256 + byte.toNat) / 256 = value bytes := by
        omega
      have low : (value bytes * 256 + byte.toNat) % 256 = byte.toNat := by
        omega
      rw [List.length_append, List.length_singleton, value_snoc, encode, high,
        low, ih, UInt8.ofNat_toNat]

/-- The bytes of a number are those of its parts. -/
theorem encode_add (high low number : Nat) :
    encode (high + low) number =
      encode high (number / 256 ^ low) ++ encode low number := by
  induction low generalizing number with
  | zero =>
      simp [encode]
  | succ low ih =>
      rw [← Nat.add_assoc, encode, encode, ih, Nat.div_div_eq_div_mul,
        ← pow_succ', List.append_assoc]

/-- Only the bits below the width are encoded. -/
theorem encode_mod (width number : Nat) :
    encode width (number % 256 ^ width) = encode width number := by
  induction width generalizing number with
  | zero =>
      rfl
  | succ width ih =>
      rw [encode, encode, pow_succ', Nat.mod_mul_right_div_self, ih,
        Nat.mod_mul_right_mod]

/-- A number is zero when all of its bytes are. -/
theorem value_eq_zero_iff (bytes : List UInt8) :
    value bytes = 0 ↔ ∀ byte ∈ bytes, byte = 0 := by
  induction bytes with
  | nil =>
      simp
  | cons byte bytes ih =>
      rw [value_cons, List.forall_mem_cons, ← ih, Nat.add_eq_zero_iff,
        Nat.mul_eq_zero]
      have weightPos : 256 ^ bytes.length ≠ 0 :=
        Nat.ne_of_gt (Nat.pow_pos (by omega))
      simp only [weightPos, or_false]
      rw [← UInt8.toNat_inj]
      rfl

/-- An encoding lists the bytes of the number, most significant first. -/
theorem encode_eq_map (width number : Nat) :
    encode width number =
      (List.range width).map fun index =>
        UInt8.ofNat (number / 256 ^ (width - 1 - index) % 256) := by
  induction width generalizing number with
  | zero =>
      rfl
  | succ width ih =>
      rw [encode, ih, List.range_succ, List.map_append]
      congr 1
      · apply List.map_congr_left
        intro index member
        have bound := List.mem_range.mp member
        have exponent :
            width + 1 - 1 - index = width - 1 - index + 1 := by
          omega
        rw [exponent, pow_succ', Nat.div_div_eq_div_mul]
      · simp

/-- Bytes may be combined before or after they are written. -/
theorem zipWith_xor_encode (width left right : Nat) :
    List.zipWith (fun a b => a ^^^ b) (encode width left)
        (encode width right) =
      encode width (left ^^^ right) := by
  rw [encode_eq_map, encode_eq_map, encode_eq_map, List.zipWith_map,
    List.zipWith_self]
  apply List.map_congr_left
  intro index member
  have weight :
      (256 : Nat) ^ (width - 1 - index) = 2 ^ (8 * (width - 1 - index)) := by
    rw [pow_mul]
    rfl
  have byteMask : (256 : Nat) = 2 ^ 8 := rfl
  rw [← UInt8.ofNat_xor, weight, ← Nat.shiftRight_eq_div_pow,
    ← Nat.shiftRight_eq_div_pow, ← Nat.shiftRight_eq_div_pow,
    Nat.shiftRight_xor_distrib, byteMask, Nat.xor_mod_two_pow]

/-! ## Blocks of equal length -/

/-- Reading one block out of a concatenation of blocks of one length. -/
theorem take_drop_flatMap_range
    {Value : Type*} {width count : Nat} {block : Nat → List Value}
    (widths : ∀ index, (block index).length = width)
    {index : Nat} (below : index < count) :
    (((List.range count).flatMap block).drop (width * index)).take width =
      block index := by
  have lengths (size : Nat) :
      ((List.range size).flatMap block).length = width * size := by
    simp only [List.length_flatMap, widths]
    rw [List.map_const', List.sum_replicate_nat, List.length_range,
      Nat.mul_comm]
  induction count with
  | zero =>
      omega
  | succ count ih =>
      rw [List.range_succ, List.flatMap_append, List.flatMap_singleton]
      by_cases earlier : index < count
      · have fits : width * index + width ≤ width * count := by
          rw [← Nat.mul_succ]
          exact Nat.mul_le_mul_left width earlier
        have lengthCount := lengths count
        rw [List.drop_append_of_le_length (by omega),
          List.take_append_of_le_length (by rw [List.length_drop]; omega)]
        exact ih earlier
      · have last : index = count := by omega
        subst index
        rw [← lengths count, List.drop_left, ← widths count]
        exact List.take_length

/-- Lists of parts of the same lengths are combined part by part. -/
theorem zipWith_flatMap
    {Index Value : Type*} {combine : Value → Value → Value}
    {left right : Index → List Value}
    (sameLengths : ∀ index, (left index).length = (right index).length)
    (indices : List Index) :
    List.zipWith combine (indices.flatMap left) (indices.flatMap right) =
      indices.flatMap fun index =>
        List.zipWith combine (left index) (right index) := by
  induction indices with
  | nil =>
      rfl
  | cons index indices ih =>
      rw [List.flatMap_cons, List.flatMap_cons, List.flatMap_cons,
        List.zipWith_append (sameLengths index), ih]

/-! ## Bit fields -/

/--
The bit field number `index` of a string of `total` bits cut into fields of
`width` bits, the most significant field first.
-/
def field (total width number index : Nat) : Nat :=
  number / 2 ^ (total - (index + 1) * width) % 2 ^ width

/-- A field is below the power of its width. -/
theorem field_lt (total width number index : Nat) :
    field total width number index < 2 ^ width :=
  Nat.mod_lt _ (Nat.two_pow_pos width)

/-! ## Exclusive or -/

/-- The exclusive or of a list of numbers. -/
def xorAll (numbers : List Nat) : Nat :=
  numbers.foldr (fun number rest => number ^^^ rest) 0

@[simp]
theorem xorAll_nil : xorAll [] = 0 :=
  rfl

@[simp]
theorem xorAll_cons (number : Nat) (numbers : List Nat) :
    xorAll (number :: numbers) = number ^^^ xorAll numbers :=
  rfl

/-- The exclusive or of two lists. -/
theorem xorAll_append (left right : List Nat) :
    xorAll (left ++ right) = xorAll left ^^^ xorAll right := by
  induction left with
  | nil =>
      simp
  | cons number numbers ih =>
      rw [List.cons_append, xorAll_cons, ih, xorAll_cons, Nat.xor_assoc]

/-- The exclusive or has no bits above those of the numbers. -/
theorem xorAll_lt
    {bits : Nat} {numbers : List Nat}
    (bounded : ∀ number ∈ numbers, number < 2 ^ bits) :
    xorAll numbers < 2 ^ bits := by
  induction numbers with
  | nil =>
      simp
  | cons number numbers ih =>
      apply Nat.xor_lt_two_pow
      · exact bounded number (by simp)
      · exact ih fun other member =>
          bounded other (List.mem_cons_of_mem _ member)

/-- An even number of equal numbers cancels. -/
theorem xorAll_replicate_even (number half : Nat) :
    xorAll (List.replicate (2 * half) number) = 0 := by
  induction half with
  | zero =>
      rfl
  | succ half ih =>
      rw [Nat.mul_succ, List.replicate_succ, List.replicate_succ,
        xorAll_cons, xorAll_cons, ih]
      simp

/-- Fields may be taken before or after the exclusive or. -/
theorem field_xor (total width left right index : Nat) :
    field total width (left ^^^ right) index =
      field total width left index ^^^ field total width right index := by
  rw [field, field, field, ← Nat.shiftRight_eq_div_pow,
    ← Nat.shiftRight_eq_div_pow, ← Nat.shiftRight_eq_div_pow,
    Nat.shiftRight_xor_distrib, Nat.xor_mod_two_pow]

/-- A number below `2 ^ total` is zero when all of its fields are. -/
theorem eq_zero_of_fields
    {count width number : Nat}
    (bound : number < 2 ^ (count * width))
    (fieldsZero :
      ∀ index < count, field (count * width) width number index = 0) :
    number = 0 := by
  induction count generalizing number with
  | zero =>
      simpa using bound
  | succ count ih =>
      have last : number % 2 ^ width = 0 := by
        have lastField := fieldsZero count (by omega)
        simpa [field] using lastField
      have upper : number / 2 ^ width = 0 := by
        apply ih
        · rw [Nat.div_lt_iff_lt_mul (Nat.two_pow_pos width), ← pow_add]
          simpa [Nat.succ_mul] using bound
        · intro index below
          have whole := fieldsZero index (by omega)
          have exponent :
              (count + 1) * width - (index + 1) * width =
                width + (count * width - (index + 1) * width) := by
            have inside : (index + 1) * width ≤ count * width :=
              Nat.mul_le_mul_right width below
            rw [Nat.succ_mul]
            omega
          rw [field, exponent, pow_add, ← Nat.div_div_eq_div_mul] at whole
          exact whole
      have decompose := Nat.div_add_mod number (2 ^ width)
      rw [upper, last] at decompose
      simpa using decompose.symm

end YiimpStratum.BigEndian

/-! ## Joined groups of bits and masks -/

namespace YiimpStratum.Bits

/-- Bits above a sum of lower ones. -/
theorem shiftLeft_or {low : Nat} (high width : Nat) (below : low < 2 ^ width) :
    high <<< width ||| low = high * 2 ^ width + low := by
  rw [← Nat.shiftLeft_add_eq_or_of_lt below, Nat.shiftLeft_eq]

theorem mul_or {low : Nat} (high width : Nat) (below : low < 2 ^ width) :
    high * 2 ^ width ||| low = high * 2 ^ width + low := by
  rw [← Nat.shiftLeft_eq, shiftLeft_or high width below, Nat.shiftLeft_eq]

theorem and_mul (number mask width : Nat) :
    number &&& mask * 2 ^ width =
      (number / 2 ^ width &&& mask) * 2 ^ width := by
  apply Nat.eq_of_testBit_eq
  intro i
  rw [Nat.testBit_and, Nat.testBit_mul_two_pow, Nat.testBit_mul_two_pow,
    Nat.testBit_and, Nat.testBit_div_two_pow]
  by_cases above : width ≤ i
  · simp [above]
  · simp [above]

end YiimpStratum.Bits
