import Mathlib.Data.UInt
import YiimpStratum.Library.BigEndian

/-!
# Bit strings and their groups

A bit string is the list of its bits, the most significant one first.  Cutting
it into groups of one width turns it into numbers, and writing the numbers with
that width gives the string back.  Regrouping with another width is what the
encoders do whose digits are not bytes.

A word into which the groups are shifted one after the other holds the end of
the string; every group that is complete can be read from it while the word is
wide enough.
-/

namespace YiimpStratum.BitString

/-! ## Numbers and bits -/

/-- The number with the given bits. -/
def ofBits (bits : List Bool) : Nat :=
  bits.foldl (fun number bit => number * 2 + bit.toNat) 0

/-- The `width` lowest bits of a number. -/
def toBits : Nat → Nat → List Bool
  | 0, _ => []
  | width + 1, number => toBits width (number / 2) ++ [number.testBit 0]

@[simp]
theorem ofBits_nil : ofBits [] = 0 :=
  rfl

@[simp]
theorem ofBits_snoc (bits : List Bool) (bit : Bool) :
    ofBits (bits ++ [bit]) = ofBits bits * 2 + bit.toNat := by
  simp [ofBits]

theorem ofBits_append (left right : List Bool) :
    ofBits (left ++ right) = ofBits left * 2 ^ right.length + ofBits right := by
  induction right using List.reverseRecOn with
  | nil =>
      simp
  | append_singleton bits bit ih =>
      rw [← List.append_assoc, ofBits_snoc, ih, ofBits_snoc,
        List.length_append, List.length_singleton, pow_succ]
      ring

theorem ofBits_lt (bits : List Bool) : ofBits bits < 2 ^ bits.length := by
  induction bits using List.reverseRecOn with
  | nil =>
      simp
  | append_singleton bits bit ih =>
      have small : bit.toNat ≤ 1 := bit.toNat_le
      rw [ofBits_snoc, List.length_append, List.length_singleton, pow_succ]
      omega

@[simp]
theorem length_toBits (width number : Nat) :
    (toBits width number).length = width := by
  induction width generalizing number with
  | zero =>
      rfl
  | succ width ih =>
      simp [toBits, ih]

@[simp]
theorem ofBits_toBits (width number : Nat) :
    ofBits (toBits width number) = number % 2 ^ width := by
  induction width generalizing number with
  | zero =>
      simp [toBits, Nat.mod_one]
  | succ width ih =>
      have lowest : (number.testBit 0).toNat = number % 2 := by
        rw [Nat.testBit_zero]
        rcases Nat.mod_two_eq_zero_or_one number with even | odd
        · rw [even]
          rfl
        · rw [odd]
          rfl
      rw [toBits, ofBits_snoc, ih, lowest, pow_succ', Nat.mod_mul]
      ring

/-- A bit string is given by its length and its number. -/
theorem toBits_ofBits (bits : List Bool) :
    toBits bits.length (ofBits bits) = bits := by
  induction bits using List.reverseRecOn with
  | nil =>
      rfl
  | append_singleton bits bit ih =>
      have upper : (ofBits bits * 2 + bit.toNat) / 2 = ofBits bits := by
        have small : bit.toNat ≤ 1 := bit.toNat_le
        omega
      have lowest : (ofBits bits * 2 + bit.toNat).testBit 0 = bit := by
        rw [Nat.testBit_zero]
        cases bit <;> simp [Nat.add_mod]
      rw [List.length_append, List.length_singleton, ofBits_snoc, toBits,
        upper, lowest, ih]

/-! ## Slices -/

/-- The number of the bits from `index * width` on, `width` of them. -/
def group (width : Nat) (bits : List Bool) (index : Nat) : Nat :=
  ofBits ((bits.drop (index * width)).take width)

/-- The numbers of the complete groups of `width` bits. -/
def groups (width : Nat) (bits : List Bool) : List Nat :=
  (List.range (bits.length / width)).map (group width bits)

@[simp]
theorem length_groups (width : Nat) (bits : List Bool) :
    (groups width bits).length = bits.length / width := by
  simp [groups]

/-- A group is a bit field of the number of the whole string. -/
theorem group_eq_field
    {width index : Nat} {bits : List Bool}
    (inside : (index + 1) * width ≤ bits.length) :
    group width bits index =
      BigEndian.field bits.length width (ofBits bits) index := by
  have start : index * width + width ≤ bits.length := by
    rwa [Nat.succ_mul] at inside
  have front :
      bits =
        bits.take (index * width) ++
          (((bits.drop (index * width)).take width) ++
            bits.drop ((index + 1) * width)) := by
    have rest :
        (bits.drop (index * width)).drop width =
          bits.drop ((index + 1) * width) := by
      rw [List.drop_drop, Nat.succ_mul]
    rw [← rest, List.take_append_drop, List.take_append_drop]
  have groupLength :
      ((bits.drop (index * width)).take width).length = width := by
    rw [List.length_take, List.length_drop]
    omega
  have restLength :
      (bits.drop ((index + 1) * width)).length =
        bits.length - (index + 1) * width :=
    List.length_drop
  have groupBound := ofBits_lt ((bits.drop (index * width)).take width)
  have restBound := ofBits_lt (bits.drop ((index + 1) * width))
  rw [groupLength] at groupBound
  rw [restLength] at restBound
  have number :
      ofBits bits =
        2 ^ (bits.length - (index + 1) * width) *
            (2 ^ width * ofBits (bits.take (index * width)) +
              group width bits index) +
          ofBits (bits.drop ((index + 1) * width)) := by
    calc
      ofBits bits = ofBits _ := congrArg ofBits front
      _ = _ := by
        rw [ofBits_append, ofBits_append, List.length_append, groupLength,
          restLength, group, pow_add]
        ring
  rw [BigEndian.field, number, Nat.mul_add_div (Nat.two_pow_pos _),
    Nat.div_eq_of_lt restBound, Nat.add_zero, Nat.mul_add_mod,
    Nat.mod_eq_of_lt]
  exact groupBound

theorem groups_eq_map_field (width : Nat) (bits : List Bool) :
    groups width bits =
      (List.range (bits.length / width)).map
        (BigEndian.field bits.length width (ofBits bits)) := by
  apply List.map_congr_left
  intro index member
  have below := List.mem_range.mp member
  exact
    group_eq_field
      ((Nat.mul_le_mul_right width below).trans (Nat.div_mul_le_self _ _))

/-! ## Longer strings -/

/-- A complete group is the same after more bits. -/
theorem group_append_left
    {width index : Nat} {left : List Bool}
    (inside : (index + 1) * width ≤ left.length) (right : List Bool) :
    group width (left ++ right) index = group width left index := by
  rw [Nat.succ_mul] at inside
  rw [group, group, List.drop_append_of_le_length (by omega),
    List.take_append_of_le_length (by rw [List.length_drop]; omega)]

/-- Behind whole groups a string is read as if it stood alone. -/
theorem group_append_right
    {width count : Nat} {left : List Bool}
    (whole : left.length = count * width) (right : List Bool) (index : Nat) :
    group width (left ++ right) (count + index) = group width right index := by
  rw [group, group, Nat.add_mul, ← whole, List.drop_append,
    List.drop_of_length_le (Nat.le_add_right _ _), List.nil_append,
    Nat.add_sub_cancel_left]

/-- The groups of a string, and those that more bits complete. -/
theorem groups_append_of_count
    {width extra : Nat} {left right : List Bool}
    (count : (left ++ right).length / width = left.length / width + extra) :
    groups width (left ++ right) =
      groups width left ++
        (List.range extra).map fun index =>
          group width (left ++ right) (left.length / width + index) := by
  rw [groups, count, List.range_add, List.map_append, List.map_map, groups]
  congr 1
  apply List.map_congr_left
  intro index member
  have below := List.mem_range.mp member
  exact
    group_append_left
      ((Nat.mul_le_mul_right width below).trans (Nat.div_mul_le_self _ _))
      right

theorem groups_append
    {width : Nat} (positive : 0 < width) {left : List Bool}
    (whole : width ∣ left.length) (right : List Bool) :
    groups width (left ++ right) =
      groups width left ++ groups width right := by
  obtain ⟨count, length⟩ := whole
  have divided : left.length / width = count := by
    rw [length, Nat.mul_div_cancel_left count positive]
  have added :
      (left ++ right).length / width =
        left.length / width + right.length / width := by
    rw [List.length_append, length, Nat.mul_add_div positive,
      Nat.mul_div_cancel_left count positive]
  rw [groups_append_of_count added]
  congr 1
  apply List.map_congr_left
  intro index _
  rw [divided]
  exact group_append_right (length.trans (Nat.mul_comm width count)) right index

/-- A string that is too short has no group. -/
theorem groups_of_short
    {width : Nat} {bits : List Bool} (short : bits.length < width) :
    groups width bits = [] := by
  rw [groups, Nat.div_eq_of_lt short]
  rfl

@[simp]
theorem groups_toBits {width : Nat} (positive : 0 < width) (number : Nat) :
    groups width (toBits width number) = [number % 2 ^ width] := by
  have whole :
      (toBits width number).take width = toBits width number :=
    List.take_of_length_le (length_toBits width number).le
  rw [groups, length_toBits, Nat.div_self positive]
  simp [group, whole]

/-! ## Writing numbers with one width -/

/-- The bits of the numbers, written with `width` bits each. -/
def written (width : Nat) (numbers : List Nat) : List Bool :=
  numbers.flatMap (toBits width)

@[simp]
theorem written_nil (width : Nat) : written width [] = [] :=
  rfl

@[simp]
theorem written_cons (width number : Nat) (numbers : List Nat) :
    written width (number :: numbers) =
      toBits width number ++ written width numbers :=
  rfl

@[simp]
theorem written_append (width : Nat) (left right : List Nat) :
    written width (left ++ right) = written width left ++ written width right :=
  List.flatMap_append

@[simp]
theorem length_written (width : Nat) (numbers : List Nat) :
    (written width numbers).length = numbers.length * width := by
  induction numbers with
  | nil =>
      simp
  | cons number numbers ih =>
      rw [written_cons, List.length_append, length_toBits, ih,
        List.length_cons]
      ring

/-- Cutting gives back what was written. -/
theorem groups_written
    {width : Nat} (positive : 0 < width) {numbers : List Nat}
    (small : ∀ number ∈ numbers, number < 2 ^ width) :
    groups width (written width numbers) = numbers := by
  induction numbers with
  | nil =>
      exact groups_of_short positive
  | cons number numbers ih =>
      have numberSmall := small number List.mem_cons_self
      have othersSmall : ∀ other ∈ numbers, other < 2 ^ width :=
        fun other member => small other (List.mem_cons_of_mem _ member)
      rw [written_cons,
        groups_append positive (length_toBits width number).symm.dvd,
        groups_toBits positive, Nat.mod_eq_of_lt numberSmall, ih othersSmall]
      rfl

/-- Writing gives back a string that was cut into whole groups. -/
theorem written_groups
    {width count : Nat} (positive : 0 < width) {bits : List Bool}
    (whole : bits.length = count * width) :
    written width (groups width bits) = bits := by
  induction count generalizing bits with
  | zero =>
      have empty : bits = [] :=
        List.length_eq_zero_iff.mp (whole.trans (Nat.zero_mul width))
      rw [empty, groups_of_short positive]
      rfl
  | succ count ih =>
      have first : (bits.take width).length = width := by
        rw [List.length_take, whole, Nat.succ_mul]
        omega
      have rest : (bits.drop width).length = count * width := by
        rw [List.length_drop, whole, Nat.succ_mul]
        omega
      have firstGroup :
          groups width (bits.take width) = [ofBits (bits.take width)] := by
        rw [groups, first, Nat.div_self positive]
        simp [group, List.take_of_length_le first.le]
      have restored := toBits_ofBits (bits.take width)
      rw [first] at restored
      rw [← List.take_append_drop width bits,
        groups_append positive first.symm.dvd, written_append, ih rest,
        firstGroup, written_cons, written_nil, List.append_nil, restored]

/-! ## The bits of a byte string -/

/-- The bits of the bytes, in order. -/
def bits (bytes : List UInt8) : List Bool :=
  written 8 (bytes.map UInt8.toNat)

theorem bits_append (left right : List UInt8) :
    bits (left ++ right) = bits left ++ bits right := by
  rw [bits, List.map_append, written_append]
  rfl

@[simp]
theorem length_bits (bytes : List UInt8) :
    (bits bytes).length = 8 * bytes.length := by
  rw [bits, length_written, List.length_map, Nat.mul_comm]

/-- A byte string and its bits denote the same number. -/
theorem ofBits_bits (bytes : List UInt8) :
    ofBits (bits bytes) = BigEndian.value bytes := by
  induction bytes using List.reverseRecOn with
  | nil =>
      rfl
  | append_singleton bytes byte ih =>
      have last : ofBits (bits [byte]) = byte.toNat := by
        rw [bits, List.map_singleton, written_cons, written_nil,
          List.append_nil, ofBits_toBits]
        exact Nat.mod_eq_of_lt byte.toNat_lt
      rw [bits_append, ofBits_append, ih, last, length_bits,
        BigEndian.value_snoc, List.length_singleton]
      rfl

/-- The bytes are the groups of eight bits. -/
theorem groups_bits (bytes : List UInt8) :
    groups 8 (bits bytes) = bytes.map UInt8.toNat := by
  apply groups_written (by omega)
  intro number member
  obtain ⟨byte, -, rfl⟩ := List.mem_map.mp member
  exact byte.toNat_lt

/-! ## A word that the bits are shifted into -/

section Pending

variable {width : Nat} {left right : List Bool}

/-- More bits that do not complete a group. -/
theorem groups_append_of_lt
    (short : left.length % width + right.length < width) :
    groups width (left ++ right) = groups width left ∧
      (left ++ right).length % width = left.length % width + right.length := by
  have decompose := Nat.div_add_mod left.length width
  have counted :
      (left ++ right).length / width = left.length / width ∧
        (left ++ right).length % width =
          left.length % width + right.length := by
    rw [Nat.div_mod_unique (by omega), List.length_append]
    exact ⟨by omega, short⟩
  refine ⟨?_, counted.2⟩
  rw [groups_append_of_count (counted.1.trans (Nat.add_zero _).symm)]
  exact List.append_nil _

/-- More bits that complete one group, which the number of all shows. -/
theorem groups_append_of_le
    (complete : width ≤ left.length % width + right.length)
    (few : left.length % width + right.length < 2 * width) :
    groups width (left ++ right) =
        groups width left ++
          [ofBits (left ++ right) /
              2 ^ (left.length % width + right.length - width) % 2 ^ width] ∧
      (left ++ right).length % width =
        left.length % width + right.length - width := by
  have decompose := Nat.div_add_mod left.length width
  have counted :
      (left ++ right).length / width = left.length / width + 1 ∧
        (left ++ right).length % width =
          left.length % width + right.length - width := by
    rw [Nat.div_mod_unique (by omega), List.length_append, Nat.mul_add]
    omega
  have position :
      (left ++ right).length - (left.length / width + 1) * width =
        left.length % width + right.length - width := by
    rw [List.length_append, Nat.add_mul, Nat.mul_comm _ width]
    omega
  have inside :
      (left.length / width + 1) * width ≤ (left ++ right).length := by
    rw [List.length_append, Nat.add_mul, Nat.mul_comm _ width]
    omega
  refine ⟨?_, counted.2⟩
  rw [groups_append_of_count counted.1, List.range_one, List.map_singleton,
    Nat.add_zero, group_eq_field inside, BigEndian.field, position]

end Pending

section Words

variable {word : UInt64} {number : Nat}

/-- Shifting in a digit, of which the word keeps the last 64 bits. -/
theorem shiftIn_toNat
    {width : Nat} {digit : UInt64} (narrow : width < 64)
    (small : digit.toNat < 2 ^ width)
    (accumulated : word.toNat = number % 2 ^ 64) :
    ((word <<< UInt64.ofNat width) ||| digit).toNat =
      (number * 2 ^ width + digit.toNat) % 2 ^ 64 := by
  rw [UInt64.toNat_or, UInt64.toNat_shiftLeft, UInt64.toNat_ofNat',
    Nat.mod_eq_of_lt (show width < 2 ^ 64 by omega),
    Nat.mod_eq_of_lt narrow, accumulated]
  apply Nat.eq_of_testBit_eq
  intro bit
  rw [Nat.mul_comm number]
  simp only [Nat.testBit_or, Nat.testBit_mod_two_pow,
    Nat.testBit_shiftLeft, Nat.testBit_two_pow_mul_add number small]
  by_cases low : bit < width
  · have inWord : bit < 64 := low.trans narrow
    simp [low, inWord]
  · have high : width ≤ bit := not_lt.mp low
    have outside : digit.toNat.testBit bit = false :=
      Nat.testBit_lt_two_pow
        (small.trans_le (Nat.pow_le_pow_right (by omega) high))
    by_cases inWord : bit < 64
    · have shiftedIn : bit - width < 64 := by omega
      simp [low, high, outside, inWord, shiftedIn]
    · simp [outside, inWord]

/-- Reading bits that are still in the word. -/
theorem shiftOut_toNat
    {shift width : Nat} (inside : shift + width ≤ 64) (positive : 0 < width)
    (accumulated : word.toNat = number % 2 ^ 64) :
    (word >>> UInt64.ofNat shift).toNat % 2 ^ width =
      number / 2 ^ shift % 2 ^ width := by
  rw [UInt64.toNat_shiftRight, UInt64.toNat_ofNat',
    Nat.mod_eq_of_lt (show shift < 2 ^ 64 by omega),
    Nat.mod_eq_of_lt (show shift < 64 by omega), accumulated,
    ← Nat.shiftRight_eq_div_pow]
  apply Nat.eq_of_testBit_eq
  intro bit
  simp only [Nat.testBit_mod_two_pow, Nat.testBit_shiftRight]
  by_cases low : bit < width
  · have inWord : shift + bit < 64 := by omega
    simp [low, inWord]
  · simp [low]

end Words

end YiimpStratum.BitString
