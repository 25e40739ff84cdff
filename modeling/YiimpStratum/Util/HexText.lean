import Mathlib.Data.List.TakeWhile
import Mathlib.Tactic.Ring
import YiimpStratum.Util.Hex

/-!
# Hexadecimal texts

What a reader of a message takes a text to be: whole bytes, with the digits
`a` to `f` in either case.
-/

namespace YiimpStratum.Util

/-- The value of a digit. -/
def hexValue (c : Char) : Nat :=
  if '0' ≤ c && c ≤ '9' then c.toNat - '0'.toNat
  else if 'a' ≤ c && c ≤ 'f' then c.toNat - 'a'.toNat + 10
  else c.toNat - 'A'.toNat + 10

/-- The bytes that a text denotes. -/
def decodeHex : CString → Option (List UInt8)
  | [] => some []
  | [_] => none
  | high :: low :: rest =>
      if isxdigit high && isxdigit low then
        (decodeHex rest).map
          (UInt8.ofNat (hexValue high * 16 + hexValue low) :: ·)
      else none

/-- The text denotes whole bytes. -/
def HexText (text : CString) : Prop :=
  text.length % 2 = 0 ∧ ∀ c ∈ text, isxdigit c = true

instance (text : CString) : Decidable (HexText text) :=
  @instDecidableAnd _ _ (Nat.decEq _ _) (List.decidableBAll _ _)

theorem hexText_nil : HexText [] :=
  ⟨rfl, fun _ member => absurd member List.not_mem_nil⟩

/-- After whole bytes a text is read as if it stood alone. -/
theorem hexText_append_iff {left : CString} (even : left.length % 2 = 0)
    (right : CString) :
    HexText (left ++ right) ↔ HexText left ∧ HexText right := by
  have lengths :
      (left ++ right).length % 2 = 0 ↔ right.length % 2 = 0 := by
    rw [List.length_append]
    omega
  rw [HexText, lengths, List.forall_mem_append]
  constructor
  · rintro ⟨rightEven, leftDigits, rightDigits⟩
    exact ⟨⟨even, leftDigits⟩, rightEven, rightDigits⟩
  · rintro ⟨⟨-, leftDigits⟩, rightEven, rightDigits⟩
    exact ⟨rightEven, leftDigits, rightDigits⟩

theorem HexText.append {left right : CString} (first : HexText left)
    (second : HexText right) : HexText (left ++ right) :=
  (hexText_append_iff first.1 right).mpr ⟨first, second⟩

theorem isxdigit_of_isLowerHexDigit {c : Char}
    (digit : isLowerHexDigit c = true) : isxdigit c = true := by
  rw [isLowerHexDigit, Bool.or_eq_true] at digit
  rw [isxdigit, Bool.or_eq_true, Bool.or_eq_true]
  exact Or.inl digit

theorem hexText_hexlify (bytes : List UInt8) : HexText (hexlify bytes) := by
  refine ⟨by rw [length_hexlify]; omega, fun c member => ?_⟩
  exact isxdigit_of_isLowerHexDigit (lowerHex_hexlify bytes c member)

/-- Exactly the texts of whole bytes denote bytes. -/
theorem exists_decodeHex {text : CString} (hex : HexText text) :
    ∃ bytes, decodeHex text = some bytes ∧
      text.length = 2 * bytes.length := by
  induction text using binlify.induct with
  | case1 =>
      exact ⟨[], rfl, rfl⟩
  | case2 single =>
      exact absurd hex.1 (by simp)
  | case3 high low rest ih =>
      have even : rest.length % 2 = 0 := by
        have even := hex.1
        simp only [List.length_cons] at even
        omega
      obtain ⟨bytes, decoded, length⟩ :=
        ih ⟨even, fun c member =>
          hex.2 c (List.mem_cons_of_mem _ (List.mem_cons_of_mem _ member))⟩
      have first := hex.2 high List.mem_cons_self
      have second := hex.2 low (List.mem_cons_of_mem _ List.mem_cons_self)
      refine
        ⟨UInt8.ofNat (hexValue high * 16 + hexValue low) :: bytes, ?_, ?_⟩
      · rw [decodeHex, first, second, decoded]
        rfl
      · simp only [List.length_cons, length]
        omega

theorem decodeHex_append {left right : CString} {first second : List UInt8}
    (decoded : decodeHex left = some first)
    (others : decodeHex right = some second) :
    decodeHex (left ++ right) = some (first ++ second) := by
  induction left using binlify.induct generalizing first with
  | case1 =>
      rw [← Option.some.inj decoded]
      exact others
  | case2 single =>
      exact absurd decoded (by simp [decodeHex])
  | case3 high low rest ih =>
      rw [decodeHex] at decoded
      rw [List.cons_append, List.cons_append, decodeHex]
      split at decoded
      · rename_i digits
        obtain ⟨bytes, tail, rfl⟩ := Option.map_eq_some_iff.mp decoded
        rw [if_pos digits, ih tail]
        rfl
      · exact absurd decoded (by simp)

theorem hexValue_hexDigit {digit : Nat} (small : digit < 16) :
    isxdigit (hexDigit digit) = true ∧ hexValue (hexDigit digit) = digit := by
  have table :
      ∀ digit ∈ List.range 16,
        isxdigit (hexDigit digit) = true ∧
          hexValue (hexDigit digit) = digit := by
    decide
  exact table digit (List.mem_range.mpr small)

theorem decodeHex_hexlify (bytes : List UInt8) :
    decodeHex (hexlify bytes) = some bytes := by
  induction bytes with
  | nil =>
      rfl
  | cons byte bytes ih =>
      have bound : byte.toNat < 256 := byte.toNat_lt
      obtain ⟨first, high⟩ :=
        hexValue_hexDigit (by omega : byte.toNat / 16 < 16)
      obtain ⟨second, low⟩ :=
        hexValue_hexDigit (by omega : byte.toNat % 16 < 16)
      have unfolded :
          hexlify (byte :: bytes) =
            hexDigit (byte.toNat / 16) :: hexDigit (byte.toNat % 16) ::
              hexlify bytes :=
        rfl
      have value :
          UInt8.ofNat (byte.toNat / 16 * 16 + byte.toNat % 16) = byte := by
        rw [Nat.div_add_mod', UInt8.ofNat_toNat]
      rw [unfolded, decodeHex, first, second, high, low, ih, value]
      rfl

/-! ## The decoder and the validator -/

/-- The decoder reads the digits that are no letters in upper case. -/
theorem binvalue_spec {c : Char} (digit : isxdigit c = true) :
    hexValue c < 16 ∧ (binvalue c).toNat < 16 ∧
      ((binvalue c).toNat = hexValue c ↔ isLowerHexDigit c = true) := by
  have table :
      ∀ number < 103, isxdigit (Char.ofNat number) = true →
        hexValue (Char.ofNat number) < 16 ∧
          (binvalue (Char.ofNat number)).toNat < 16 ∧
            ((binvalue (Char.ofNat number)).toNat =
                hexValue (Char.ofNat number) ↔
              isLowerHexDigit (Char.ofNat number) = true) := by
    decide
  have upper (bound : Char) : c ≤ bound ↔ c.toNat ≤ bound.toNat := Iff.rfl
  have small : c.toNat < 103 := by
    simp only [isxdigit, Bool.or_eq_true, Bool.and_eq_true,
      decide_eq_true_eq, upper] at digit
    have nine : '9'.toNat = 57 := rfl
    have letters : 'f'.toNat = 102 ∧ 'F'.toNat = 70 := ⟨rfl, rfl⟩
    omega
  have known := table c.toNat small
  rw [Char.ofNat_toNat] at known
  exact known digit

/-- Two digits are decoded to the byte they denote. -/
theorem nibbles_eq_iff
    {high low : Char} (highDigit : isxdigit high = true)
    (lowDigit : isxdigit low = true) :
    binvalue high <<< 4 ||| binvalue low =
        UInt8.ofNat (hexValue high * 16 + hexValue low) ↔
      isLowerHexDigit high = true ∧ isLowerHexDigit low = true := by
  obtain ⟨highValue, highSmall, highRead⟩ := binvalue_spec highDigit
  obtain ⟨lowValue, lowSmall, lowRead⟩ := binvalue_spec lowDigit
  rw [← UInt8.toNat_inj, toNat_nibbles highSmall lowSmall,
    UInt8.toNat_ofNat', Nat.mod_eq_of_lt (by omega), ← highRead, ← lowRead]
  omega

theorem decodeHex_eq_binlify_iff {text : CString} (hex : HexText text) :
    decodeHex text = some (binlify text) ↔ LowerHex text := by
  induction text using binlify.induct with
  | case1 =>
      exact iff_of_true rfl fun c member => absurd member List.not_mem_nil
  | case2 single =>
      exact absurd hex.1 (by simp)
  | case3 high low rest ih =>
      have split : high :: low :: rest = [high, low] ++ rest := rfl
      have pair : [high, low].length % 2 = 0 := by simp
      rw [split, hexText_append_iff pair] at hex
      have highDigit := hex.1.2 high List.mem_cons_self
      have lowDigit :=
        hex.1.2 low (List.mem_cons_of_mem _ List.mem_cons_self)
      obtain ⟨bytes, decoded, -⟩ := exists_decodeHex hex.2
      have others := ih hex.2
      rw [decoded, Option.some.injEq] at others
      rw [decodeHex, highDigit, lowDigit, decoded, Bool.and_true,
        if_pos rfl, Option.map_some, Option.some.injEq, binlify,
        List.cons.injEq, others, eq_comm, nibbles_eq_iff highDigit lowDigit]
      simp only [LowerHex, List.forall_mem_cons, and_assoc]

/--
A string that the validator accepts is decoded to the bytes it denotes exactly
when it has no letter in upper case; what the encoder writes is decoded.
-/
theorem binlify_decodes_iff
    {hex : CString} (even : hex.length % 2 = 0)
    (accepted : ishexa hex hex.length = true) :
    (decodeHex hex = some (binlify hex) ↔ LowerHex hex) ∧
      ∀ bytes, binlify (hexlify bytes) = bytes := by
  rw [ishexa_length, List.all_eq_true] at accepted
  exact ⟨decodeHex_eq_binlify_iff ⟨even, accepted⟩, binlify_hexlify⟩

/-- The letters of `ab` are read. -/
theorem binlify_decodes_lowerCase :
    decodeHex ['a', 'b'] = some (binlify ['a', 'b']) ∧
      ∀ bytes, binlify (hexlify bytes) = bytes := by
  obtain ⟨decodes, roundTrip⟩ :=
    @binlify_decodes_iff ['a', 'b'] (by decide) (by decide)
  exact ⟨decodes.mpr (by decide), roundTrip⟩

/-- The letters of `AB` are accepted and read as zeros. -/
theorem not_decoded_upperCase :
    ¬ ∀ hex : CString, hex.length % 2 = 0 →
      ishexa hex hex.length = true → decodeHex hex = some (binlify hex) := by
  intro decodes
  have wrong := decodes ['A', 'B'] (by decide) (by decide)
  exact absurd wrong (by decide)

/-! ## Byte order -/

theorem hexText_stringBe {text : CString} (hex : HexText text) :
    HexText (stringBe text) := by
  induction text using stringBe.induct with
  | case1 =>
      exact hexText_nil
  | case2 single =>
      exact absurd hex.1 (by simp)
  | case3 first second rest ih =>
      have split : first :: second :: rest = [first, second] ++ rest := rfl
      have pair : [first, second].length % 2 = 0 := by simp
      rw [split, hexText_append_iff pair] at hex
      exact (ih hex.2).append hex.1

/-! ## Numbers -/

/-- The number of a row of digits. -/
def hexDigitsValue (digits : CString) : Nat :=
  digits.foldl (fun value c => value * 16 + hexValue c) 0

def dropSign (text : CString) : CString :=
  if text.head? = some '-' ∨ text.head? = some '+' then text.tail else text

def dropPrefix (text : CString) : CString :=
  if text.take 2 = ['0', 'x'] ∨ text.take 2 = ['0', 'X'] then text.drop 2
  else text

/-- `sscanf` with `%x` and a width; `none` when it stores nothing. -/
def scanHex (width : Nat) (text : CString) : Option Int :=
  let field := (text.dropWhile Char.isWhitespace).take width
  let digits := (dropPrefix (dropSign field)).takeWhile isxdigit
  if digits = [] then none
  else if field.head? = some '-' then some (-(hexDigitsValue digits : Int))
  else some (hexDigitsValue digits)

theorem lowerHexDigit_spec {c : Char} (digit : isLowerHexDigit c = true) :
    c.isWhitespace = false ∧ isxdigit c = true ∧ hexValue c < 16 ∧
      hexDigit (hexValue c) = c := by
  have table :
      ∀ number < 16, (hexDigit number).isWhitespace = false ∧
        isxdigit (hexDigit number) = true ∧
          hexValue (hexDigit number) < 16 ∧
            hexDigit (hexValue (hexDigit number)) = hexDigit number := by
    decide
  obtain ⟨number, inRange, rfl⟩ :=
    List.mem_map.mp (mem_digits_of_isLowerHexDigit digit)
  exact table number (List.mem_range.mp inRange)

/-- A field of lower-case digits is read as a whole. -/
theorem scanHex_of_lowerHex {width : Nat} {text : CString}
    (digits : LowerHex text) (length : text.length = width)
    (positive : 0 < width) :
    scanHex width text = some (hexDigitsValue text : Int) := by
  have spaces : text.dropWhile Char.isWhitespace = text := by
    cases text with
    | nil => rfl
    | cons c rest =>
        have digit := digits c List.mem_cons_self
        rw [List.dropWhile_cons, (lowerHexDigit_spec digit).1]
        rfl
  have unsigned : ∀ sign, isLowerHexDigit sign = false →
      text.head? ≠ some sign := by
    intro sign other head
    have digit := digits sign (List.mem_of_mem_head? head)
    rw [digit] at other
    exact Bool.noConfusion other
  have minus := unsigned '-' (by decide)
  have plus := unsigned '+' (by decide)
  have unmarked : ∀ mark, isLowerHexDigit mark = false →
      text.take 2 ≠ ['0', mark] := by
    intro mark other start
    have member : mark ∈ text.take 2 := by
      rw [start]
      exact List.mem_cons_of_mem _ (List.mem_singleton_self mark)
    have digit := digits mark (List.mem_of_mem_take member)
    rw [digit] at other
    exact Bool.noConfusion other
  have all : text.takeWhile isxdigit = text :=
    List.takeWhile_eq_self_iff.mpr fun c member =>
      (lowerHexDigit_spec (digits c member)).2.1
  have nonempty : text ≠ [] := by
    intro empty
    rw [← length, empty] at positive
    exact lt_irrefl 0 positive
  rw [scanHex, spaces, List.take_of_length_le length.le, dropSign,
    if_neg (not_or.mpr ⟨minus, plus⟩), dropPrefix,
    if_neg (not_or.mpr ⟨unmarked 'x' (by decide), unmarked 'X' (by decide)⟩),
    all, if_neg nonempty, if_neg minus]

theorem hexDigitsValue_cons (c : Char) (digits : CString) :
    hexDigitsValue (c :: digits) =
      hexValue c * 16 ^ digits.length + hexDigitsValue digits := by
  have start : ∀ (digits : CString) (value : Nat),
      digits.foldl (fun value c => value * 16 + hexValue c) value =
        value * 16 ^ digits.length + hexDigitsValue digits := by
    intro digits
    induction digits with
    | nil =>
        intro value
        rw [List.foldl_nil, List.length_nil, pow_zero, mul_one]
        rfl
    | cons c digits ih =>
        intro value
        rw [hexDigitsValue, List.foldl_cons, List.foldl_cons, ih, ih,
          List.length_cons, pow_succ]
        ring
  rw [hexDigitsValue, List.foldl_cons, zero_mul, zero_add, start]

theorem hexDigitsValue_lt {digits : CString} (lower : LowerHex digits) :
    hexDigitsValue digits < 16 ^ digits.length := by
  induction digits with
  | nil =>
      exact Nat.one_pos
  | cons c digits ih =>
      have rest := ih fun d member =>
        lower d (List.mem_cons_of_mem _ member)
      have digit := (lowerHexDigit_spec (lower c List.mem_cons_self)).2.2.1
      rw [hexDigitsValue_cons, List.length_cons, pow_succ]
      calc hexValue c * 16 ^ digits.length + hexDigitsValue digits
          < hexValue c * 16 ^ digits.length + 16 ^ digits.length :=
            Nat.add_lt_add_left rest _
        _ = (hexValue c + 1) * 16 ^ digits.length := by ring
        _ ≤ 16 * 16 ^ digits.length := Nat.mul_le_mul_right _ digit
        _ = 16 ^ digits.length * 16 := by ring

/-- Rows of as many lower-case digits differ in their numbers. -/
theorem hexDigitsValue_injective {left right : CString}
    (leftLower : LowerHex left) (rightLower : LowerHex right)
    (lengths : left.length = right.length)
    (same : hexDigitsValue left = hexDigitsValue right) : left = right := by
  induction left generalizing right with
  | nil =>
      exact (List.length_eq_zero_iff.mp lengths.symm).symm
  | cons c digits ih =>
      cases right with
      | nil => exact absurd lengths (by simp)
      | cons d others =>
          have restLower : LowerHex digits := fun e member =>
            leftLower e (List.mem_cons_of_mem _ member)
          have othersLower : LowerHex others := fun e member =>
            rightLower e (List.mem_cons_of_mem _ member)
          have restLengths : digits.length = others.length := by
            rw [List.length_cons, List.length_cons] at lengths
            exact Nat.succ.inj lengths
          have below := hexDigitsValue_lt restLower
          have othersBelow := hexDigitsValue_lt othersLower
          rw [hexDigitsValue_cons, hexDigitsValue_cons, ← restLengths]
            at same
          rw [← restLengths] at othersBelow
          have positive : 0 < 16 ^ digits.length := Nat.pow_pos (by decide)
          have heads : hexValue c = hexValue d := by
            have quotient := congrArg (· / 16 ^ digits.length) same
            rw [Nat.mul_comm, Nat.mul_add_div positive,
              Nat.div_eq_of_lt below, Nat.mul_comm (hexValue d),
              Nat.mul_add_div positive, Nat.div_eq_of_lt othersBelow]
              at quotient
            exact quotient
          rw [heads] at same
          have first := (lowerHexDigit_spec
            (leftLower c List.mem_cons_self)).2.2.2
          have second := (lowerHexDigit_spec
            (rightLower d List.mem_cons_self)).2.2.2
          rw [← first, ← second, heads,
            ih restLower othersLower restLengths (Nat.add_left_cancel same)]

/-! ## Digits in lower case -/

/-- A text of so many digits, in lower case. -/
structure LowerDigits (count : Nat) where
  text : CString
  length_text : text.length = count
  lower : LowerHex text

/-- Bytes as their digits. -/
def LowerDigits.ofBytes {count : Nat} (bytes : List UInt8)
    (length : 2 * bytes.length = count) : LowerDigits count where
  text := hexlify bytes
  length_text := (length_hexlify bytes).trans length
  lower := lowerHex_hexlify bytes

namespace LowerDigits

variable {count : Nat} (digits : LowerDigits count)

/-- The bytes that the digits denote. -/
def bytes : List UInt8 :=
  (decodeHex digits.text).getD []

/-- The number that the digits denote. -/
def number : Nat :=
  hexDigitsValue digits.text

variable {digits}

/-- `binlify` reads digits in lower case as they are meant. -/
theorem binlify_text (even : count % 2 = 0) :
    binlify digits.text = digits.bytes := by
  have encoded : hexlify (binlify digits.text) = digits.text :=
    hexlify_binlify digits.text digits.lower
      (digits.length_text.symm ▸ even)
  rw [bytes, ← encoded, decodeHex_hexlify, binlify_hexlify, Option.getD_some]

theorem hexlify_bytes (even : count % 2 = 0) :
    hexlify digits.bytes = digits.text := by
  rw [← binlify_text even]
  exact hexlify_binlify digits.text digits.lower
    (digits.length_text.symm ▸ even)

theorem length_bytes (even : count % 2 = 0) :
    digits.bytes.length = count / 2 := by
  rw [← binlify_text even, length_binlify, digits.length_text]

/-- With the pairs of digits reversed the bytes are. -/
theorem binlify_stringBe (even : count % 2 = 0) :
    binlify (stringBe digits.text) = digits.bytes.reverse := by
  rw [← hexlify_bytes even, stringBe_hexlify, binlify_hexlify]

end LowerDigits

theorem hexDigitsValue_append (left right : CString) :
    hexDigitsValue (left ++ right) =
      hexDigitsValue left * 16 ^ right.length + hexDigitsValue right := by
  induction left with
  | nil =>
      have empty : hexDigitsValue [] = 0 := rfl
      rw [List.nil_append, empty, Nat.zero_mul, Nat.zero_add]
  | cons c left ih =>
      rw [List.cons_append, hexDigitsValue_cons, hexDigitsValue_cons, ih,
        List.length_append, pow_add]
      ring

theorem hexDigitsValue_hexlify (bytes : List UInt8) :
    hexDigitsValue (hexlify bytes) = BigEndian.value bytes := by
  induction bytes with
  | nil =>
      rfl
  | cons byte bytes ih =>
      have bound : byte.toNat < 256 := byte.toNat_lt
      have unfolded :
          hexlify (byte :: bytes) = hexByte byte ++ hexlify bytes :=
        rfl
      have high := (hexValue_hexDigit (by omega : byte.toNat / 16 < 16)).2
      have low := (hexValue_hexDigit (by omega : byte.toNat % 16 < 16)).2
      have first : hexDigitsValue (hexByte byte) = byte.toNat := by
        rw [hexByte, hexDigitsValue, List.foldl_cons, List.foldl_cons,
          List.foldl_nil, high, low]
        omega
      rw [unfolded, hexDigitsValue_append, first, ih, length_hexlify,
        BigEndian.value_cons, pow_mul]
      rfl

/-! ## `htoi64` on digits in lower case -/

theorem htoiDigit_of_lowerHex {c : Char} (digit : isLowerHexDigit c = true) :
    htoiDigit c = some (hexValue c) := by
  have table :
      ∀ number < 16,
        htoiDigit (hexDigit number) =
          some (hexValue (hexDigit number)) := by
    decide
  obtain ⟨number, inRange, rfl⟩ :=
    List.mem_map.mp (mem_digits_of_isLowerHexDigit digit)
  exact table number (List.mem_range.mp inRange)

theorem foldlM_htoi64Step {digits : CString} (lower : LowerHex digits)
    {val : Nat}
    (fits : val * 16 ^ digits.length + hexDigitsValue digits < 2 ^ 64) :
    digits.foldlM htoi64Step val =
      some (val * 16 ^ digits.length + hexDigitsValue digits) := by
  induction digits generalizing val with
  | nil =>
      have empty : hexDigitsValue [] = 0 := rfl
      rw [List.foldlM_nil, List.length_nil, pow_zero, Nat.mul_one, empty]
      rfl
  | cons c digits ih =>
      have head := htoiDigit_of_lowerHex (lower c List.mem_cons_self)
      have regrouped :
          val * 16 ^ (c :: digits).length + hexDigitsValue (c :: digits) =
            (val * 16 + hexValue c) * 16 ^ digits.length +
              hexDigitsValue digits := by
        rw [hexDigitsValue_cons, List.length_cons]
        ring
      rw [regrouped] at fits ⊢
      have small : val * 16 + hexValue c < 2 ^ 64 := by
        refine lt_of_le_of_lt ?_ fits
        exact Nat.le_add_right_of_le
          (Nat.le_mul_of_pos_right _ (Nat.pow_pos (by decide)))
      rw [List.foldlM_cons, htoi64Step, head, Option.map_some,
        Nat.mod_eq_of_lt small]
      exact ih (fun d member => lower d (List.mem_cons_of_mem _ member)) fits

/-- Up to 16 digits in lower case are read as they are meant. -/
theorem LowerDigits.htoi64_text {count : Nat} (digits : LowerDigits count)
    (few : count ≤ 16) : htoi64 digits.text = digits.number := by
  have below := hexDigitsValue_lt digits.lower
  rw [digits.length_text] at below
  have power : 16 ^ count ≤ 16 ^ 16 := Nat.pow_le_pow_right (by decide) few
  have fits :
      0 * 16 ^ digits.text.length + hexDigitsValue digits.text < 2 ^ 64 := by
    omega
  have read := foldlM_htoi64Step digits.lower fits
  have unmarked : ∀ mark ∈ digits.text, isLowerHexDigit mark = true :=
    digits.lower
  unfold htoi64 number
  split
  · rename_i rest start
    rw [start] at unmarked
    exact absurd (unmarked 'x' (by simp)) (by decide)
  · rename_i rest start
    rw [start] at unmarked
    exact absurd (unmarked 'X' (by simp)) (by decide)
  · dsimp only
    rw [read, Option.getD_some, Nat.zero_mul, Nat.zero_add]

/-- The number of digits is the big-endian number of their bytes. -/
theorem LowerDigits.value_bytes {count : Nat} {digits : LowerDigits count}
    (even : count % 2 = 0) :
    BigEndian.value digits.bytes = digits.number := by
  rw [number, ← hexlify_bytes even, hexDigitsValue_hexlify]

end YiimpStratum.Util
