import YiimpStratum.Library.BitString

/-!
# Base64

The bits of a byte string are cut into groups of six, the last one filled up
with zeros; every group is written as a character of the alphabet, and the text
is padded to a multiple of four characters.
-/

namespace YiimpStratum.Base64

open YiimpStratum.BitString

/-- The character of a group of six bits. -/
def alphabet (digit : Nat) : Char :=
  if digit < 26 then Char.ofNat ('A'.toNat + digit)
  else if digit < 52 then Char.ofNat ('a'.toNat + (digit - 26))
  else if digit < 62 then Char.ofNat ('0'.toNat + (digit - 52))
  else if digit = 62 then '+'
  else '/'

/-- The zeros that fill up the last group. -/
def fill (bytes : List UInt8) : List Bool :=
  List.replicate ((6 - 8 * bytes.length % 6) % 6) false

/-- The groups of six bits. -/
def digits (bytes : List UInt8) : List Nat :=
  groups 6 (bits bytes ++ fill bytes)

/-- The padding behind so many characters. -/
def padding (count : Nat) : List Char :=
  List.replicate ((4 - count % 4) % 4) '='

/-- The text of a byte string. -/
def encode (bytes : List UInt8) : List Char :=
  (digits bytes).map alphabet ++ padding (digits bytes).length

/-! ## Groups of three bytes -/

theorem fill_append
    {left : List UInt8} (whole : 3 ∣ left.length) (right : List UInt8) :
    fill (left ++ right) = fill right := by
  obtain ⟨count, length⟩ := whole
  rw [fill, fill, List.length_append, length]
  congr 1
  omega

theorem fill_of_dvd {bytes : List UInt8} (whole : 3 ∣ bytes.length) :
    fill bytes = [] := by
  have alone := fill_append whole []
  rw [List.append_nil] at alone
  exact alone

/-- Three bytes are four whole groups. -/
theorem digits_append
    {left : List UInt8} (whole : 3 ∣ left.length) (right : List UInt8) :
    digits (left ++ right) = digits left ++ digits right := by
  obtain ⟨count, length⟩ := whole
  have groupsWhole : 6 ∣ (bits left).length := by
    rw [length_bits, length]
    exact ⟨4 * count, by omega⟩
  rw [digits, fill_append ⟨count, length⟩, bits_append, List.append_assoc,
    groups_append (by omega) groupsWhole, digits, digits,
    fill_of_dvd ⟨count, length⟩, List.append_nil]

theorem length_digits_of_dvd
    {bytes : List UInt8} {count : Nat} (whole : bytes.length = 3 * count) :
    (digits bytes).length = 4 * count := by
  rw [digits, fill_of_dvd ⟨count, whole⟩, List.append_nil, length_groups,
    length_bits, whole]
  omega

theorem encode_append
    {left : List UInt8} (whole : 3 ∣ left.length) (right : List UInt8) :
    encode (left ++ right) = (digits left).map alphabet ++ encode right := by
  obtain ⟨count, length⟩ := whole
  have padded :
      padding (digits (left ++ right)).length =
        padding (digits right).length := by
    rw [digits_append ⟨count, length⟩, List.length_append,
      length_digits_of_dvd length, padding, padding]
    congr 1
    omega
  rw [encode, padded, digits_append ⟨count, length⟩, List.map_append,
    List.append_assoc]
  rfl

theorem ofBits_zeros (count : Nat) :
    ofBits (List.replicate count false) = 0 := by
  induction count with
  | zero =>
      rfl
  | succ count ih =>
      rw [List.replicate_succ', ofBits_snoc, ih]
      rfl

/-- The digits are fields of the number of the bytes and the zeros. -/
theorem digits_eq_map_field
    {bytes : List UInt8} {zeros count : Nat}
    (filled : (fill bytes).length = zeros)
    (whole : 8 * bytes.length + zeros = 6 * count) :
    digits bytes =
      (List.range count).map
        (BigEndian.field (6 * count) 6
          (BigEndian.value bytes * 2 ^ zeros)) := by
  have length : (bits bytes ++ fill bytes).length = 6 * count := by
    rw [List.length_append, length_bits, filled, whole]
  have number :
      ofBits (bits bytes ++ fill bytes) =
        BigEndian.value bytes * 2 ^ zeros := by
    rw [ofBits_append, filled, ofBits_bits, fill, ofBits_zeros, Nat.add_zero]
  rw [digits, groups_eq_map_field, length, number,
    Nat.mul_div_cancel_left count (by omega)]

theorem digits_one (byte : UInt8) :
    digits [byte] = [byte.toNat / 4, byte.toNat % 4 * 16] := by
  have bound : byte.toNat < 256 := byte.toNat_lt
  have number : BigEndian.value [byte] * 2 ^ 4 = byte.toNat * 16 := by
    simp [BigEndian.value]
  rw [@digits_eq_map_field [byte] 4 2 (by simp [fill]) rfl, number]
  simp only [List.range_succ, List.range_zero, List.nil_append,
    List.cons_append, List.map_cons, List.map_nil, BigEndian.field,
    List.cons.injEq, and_true]
  omega

theorem digits_two (first second : UInt8) :
    digits [first, second] =
      [first.toNat / 4, first.toNat % 4 * 16 + second.toNat / 16,
        second.toNat % 16 * 4] := by
  have firstBound : first.toNat < 256 := first.toNat_lt
  have secondBound : second.toNat < 256 := second.toNat_lt
  have number :
      BigEndian.value [first, second] * 2 ^ 2 =
        (first.toNat * 256 + second.toNat) * 4 := by
    simp [BigEndian.value]
  rw [@digits_eq_map_field [first, second] 2 3 (by simp [fill]) rfl, number]
  simp only [List.range_succ, List.range_zero, List.nil_append,
    List.cons_append, List.map_cons, List.map_nil, BigEndian.field,
    List.cons.injEq, and_true]
  omega

theorem digits_three (first second third : UInt8) :
    digits [first, second, third] =
      [first.toNat / 4, first.toNat % 4 * 16 + second.toNat / 16,
        second.toNat % 16 * 4 + third.toNat / 64, third.toNat % 64] := by
  have firstBound : first.toNat < 256 := first.toNat_lt
  have secondBound : second.toNat < 256 := second.toNat_lt
  have thirdBound : third.toNat < 256 := third.toNat_lt
  have number :
      BigEndian.value [first, second, third] * 2 ^ 0 =
        (first.toNat * 256 + second.toNat) * 256 + third.toNat := by
    simp [BigEndian.value]
  rw [@digits_eq_map_field [first, second, third] 0 4 (by simp [fill]) rfl,
    number]
  simp only [List.range_succ, List.range_zero, List.nil_append,
    List.cons_append, List.map_cons, List.map_nil, BigEndian.field,
    List.cons.injEq, and_true]
  omega

/-! ## Decoding -/

theorem digits_lt {bytes : List UInt8} {digit : Nat}
    (member : digit ∈ digits bytes) : digit < 64 := by
  obtain ⟨index, -, rfl⟩ := List.mem_map.mp member
  refine (ofBits_lt _).trans_le ?_
  exact Nat.pow_le_pow_right (by omega) (List.length_take_le _ _)

/-- The bits of the digits are those of the bytes, and fewer than eight more. -/
theorem written_digits (bytes : List UInt8) :
    written 6 (digits bytes) = bits bytes ++ fill bytes := by
  have whole :
      (bits bytes ++ fill bytes).length =
        ((8 * bytes.length + 5) / 6) * 6 := by
    rw [List.length_append, length_bits, fill, List.length_replicate]
    omega
  exact written_groups (by omega) whole

/-- The bytes are the complete groups of eight bits of the digits. -/
theorem groups_written_digits (bytes : List UInt8) :
    groups 8 (written 6 (digits bytes)) = bytes.map UInt8.toNat := by
  have short : (fill bytes).length < 8 := by
    rw [fill, List.length_replicate]
    omega
  have whole : 8 ∣ (bits bytes).length := by
    rw [length_bits]
    exact Nat.dvd_mul_right 8 _
  rw [written_digits, groups_append (by omega) whole, groups_of_short short,
    List.append_nil, groups_bits]

end YiimpStratum.Base64
