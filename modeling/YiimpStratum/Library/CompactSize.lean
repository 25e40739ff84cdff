import YiimpStratum.Library.BigEndian

/-!
# Counts of variable length

The count in front of a list of a binary message: one byte below 253, or a
marker and two, four or eight bytes with the least significant byte first.
-/

namespace YiimpStratum.CompactSize

/-! ## Fields with the least significant byte first -/

def littleEndian (width number : Nat) : List UInt8 :=
  (BigEndian.encode width number).reverse

/-- A field at the start of a byte string, and the rest. -/
def readField (width : Nat) (bytes : List UInt8) :
    Option (Nat × List UInt8) :=
  if bytes.length < width then none
  else
    some (BigEndian.value (bytes.take width).reverse, bytes.drop width)

@[simp]
theorem length_littleEndian (width number : Nat) :
    (littleEndian width number).length = width := by
  rw [littleEndian, List.length_reverse, BigEndian.length_encode]

theorem readField_append (width number : Nat) (rest : List UInt8) :
    readField width (littleEndian width number ++ rest) =
      some (number % 256 ^ width, rest) := by
  have length := length_littleEndian width number
  rw [readField, if_neg (by rw [List.length_append, length]; omega),
    List.take_append_of_le_length length.ge,
    List.take_of_length_le length.le, List.drop_append_of_le_length length.ge,
    List.drop_eq_nil_of_le length.le, littleEndian, List.reverse_reverse,
    BigEndian.value_encode, List.nil_append]

/-- A byte string is the field of its number. -/
theorem littleEndian_value {width : Nat} {bytes : List UInt8}
    (length : bytes.length = width) :
    littleEndian width (BigEndian.value bytes.reverse) = bytes := by
  have encoded := BigEndian.encode_value bytes.reverse
  rw [List.length_reverse, length] at encoded
  rw [littleEndian, encoded, List.reverse_reverse]

theorem littleEndian_two (number : Nat) :
    littleEndian 2 number =
      [UInt8.ofNat (number % 256), UInt8.ofNat (number / 256 % 256)] :=
  rfl

/-! ## Counts -/

def encode (count : Nat) : List UInt8 :=
  if count < 253 then [UInt8.ofNat count]
  else if count < 2 ^ 16 then 0xfd :: littleEndian 2 count
  else if count < 2 ^ 32 then 0xfe :: littleEndian 4 count
  else 0xff :: littleEndian 8 count

/-- The count at the start of a byte string, and the rest. -/
def decode : List UInt8 → Option (Nat × List UInt8)
  | [] => none
  | first :: rest =>
      if first = 0xfd then readField 2 rest
      else if first = 0xfe then readField 4 rest
      else if first = 0xff then readField 8 rest
      else some (first.toNat, rest)

/-- A count is read back, with what follows it. -/
theorem decode_encode_append {count : Nat} (small : count < 2 ^ 64)
    (rest : List UInt8) :
    decode (encode count ++ rest) = some (count, rest) := by
  rw [encode]
  split
  · rename_i byte
    have value : (UInt8.ofNat count).toNat = count := by
      rw [UInt8.toNat_ofNat']
      omega
    have unmarked : ∀ marker : UInt8, 253 ≤ marker.toNat →
        UInt8.ofNat count ≠ marker := by
      rintro _ large rfl
      omega
    rw [List.singleton_append, decode, if_neg (unmarked 0xfd (by decide)),
      if_neg (unmarked 0xfe (by decide)),
      if_neg (unmarked 0xff (by decide)), value]
  · split
    · rw [List.cons_append, decode, if_pos rfl, readField_append,
        Nat.mod_eq_of_lt (by omega)]
    · split
      · rw [List.cons_append, decode, if_neg (by decide), if_pos rfl,
          readField_append, Nat.mod_eq_of_lt (by omega)]
      · rw [List.cons_append, decode, if_neg (by decide),
          if_neg (by decide), if_pos rfl, readField_append,
          Nat.mod_eq_of_lt (by omega)]

theorem length_encode_le_iff (count : Nat) :
    (encode count).length ≤ 3 ↔ count < 2 ^ 16 := by
  rw [encode]
  split
  · rw [List.length_singleton]
    omega
  · split
    · rw [List.length_cons, length_littleEndian]
      omega
    · split <;> rw [List.length_cons, length_littleEndian] <;> omega

/-- A count of at most three bytes is determined by them. -/
theorem eq_of_encode_eq {left right : Nat} (small : left < 2 ^ 16)
    (same : encode left = encode right) : left = right := by
  have short := (length_encode_le_iff left).mpr small
  rw [same, length_encode_le_iff] at short
  have readLeft := decode_encode_append (by omega : left < 2 ^ 64) []
  rw [same, decode_encode_append (by omega : right < 2 ^ 64)] at readLeft
  exact (congrArg Prod.fst (Option.some.inj readLeft)).symm

end YiimpStratum.CompactSize
