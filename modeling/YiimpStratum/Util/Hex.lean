import YiimpStratum.Library.BigEndian

/-!
# Hexadecimal and byte-order helpers

The string helpers of `util.cpp` on which the submission path rests.  A C
string is the list of its characters before the terminator; an output buffer
is the list of what the function writes into it.

Two facts carry the later modules.  Reversing pairs of digits twice gives the
string back, and decoding is a left inverse of encoding, also through a
reversal of the byte order.
-/

namespace YiimpStratum.Util

open YiimpStratum

/-- A C string without its terminator. -/
abbrev CString := List Char

/-! ## Encoding -/

/-- One digit of the conversion `%x`. -/
def hexDigit (digit : Nat) : Char :=
  if digit < 10 then Char.ofNat (48 + digit) else Char.ofNat (87 + digit)

/-- The conversion `%02x` of one byte. -/
def hexByte (byte : UInt8) : CString :=
  [hexDigit (byte.toNat / 16), hexDigit (byte.toNat % 16)]

def hexlify (bytes : List UInt8) : CString :=
  bytes.flatMap hexByte

/-- The conversion `%08x` of a 32-bit word. -/
def hex8 (word : Nat) : CString :=
  hexlify (BigEndian.encode 4 word)

/-- The conversion `%x`. -/
def hexNumber (number : Nat) : CString :=
  (Nat.toDigits 16 number).map Char.toLower

/-! ## Recognising digits -/

def isxdigit (c : Char) : Bool :=
  ('0' ≤ c && c ≤ '9') || ('a' ≤ c && c ≤ 'f') || ('A' ≤ c && c ≤ 'F')

/--
`ishexa`: the terminator is not a digit, so the loop stops at it when the
string is shorter than `len`.
-/
def ishexa (hex : CString) (len : Nat) : Bool :=
  (List.range len).all fun i =>
    match hex[i]? with
    | some c => isxdigit c
    | none => false

/-! ## Decoding -/

def binvalue (v : Char) : UInt8 :=
  if '0' ≤ v && v ≤ '9' then UInt8.ofNat (v.toNat - '0'.toNat)
  else if 'a' ≤ v && v ≤ 'f' then UInt8.ofNat (v.toNat - 'a'.toNat + 10)
  else 0

def binlify : CString → List UInt8
  | [] => []
  | [_] => []
  | high :: low :: rest =>
      (binvalue high <<< 4 ||| binvalue low) :: binlify rest

/-- `string_be`: the pairs of characters in reverse order. -/
def stringBe : CString → CString
  | [] => []
  | [_] => []
  | first :: second :: rest => stringBe rest ++ [first, second]

/-- `ser_string_be`: the pairs of characters of each word in reverse order. -/
def serStringBe (input : CString) (len : Nat) : CString :=
  (List.range len).flatMap fun i => stringBe ((input.drop (i * 8)).take 8)

/-- `ser_string_be2`: the first `len` words of eight characters, reversed. -/
def serStringBe2 (input : CString) (len : Nat) : CString :=
  (List.range len).flatMap fun i => (input.drop ((len - i - 1) * 8)).take 8

def stringLower (s : CString) : CString :=
  s.map Char.toLower

/-- One character of the loop of `htoi`; the outcome is `none` at a return. -/
def htoiStep (val : Nat) (c : Char) : Option Nat :=
  if '0' ≤ c && c ≤ '9' then
    some ((val * 16 + (c.toNat - '0'.toNat)) % 2 ^ 32)
  else if 'A' ≤ c && c ≤ 'F' then
    some ((val * 16 + (c.toNat - 'A'.toNat + 10)) % 2 ^ 32)
  else if 'a' ≤ c && c ≤ 'f' then
    some ((val * 16 + (c.toNat - 'a'.toNat + 10)) % 2 ^ 32)
  else
    none

/-- `htoi`: zero when a character is no digit. -/
def htoi (s : CString) : Nat :=
  let digits :=
    match s with
    | '0' :: 'x' :: rest => rest
    | '0' :: 'X' :: rest => rest
    | _ => s
  (digits.foldlM htoiStep 0).getD 0

/-- The value of a digit in the loop of `htoi64`. -/
def htoiDigit (c : Char) : Option Nat :=
  if '0' ≤ c && c ≤ '9' then some (c.toNat - '0'.toNat)
  else if 'A' ≤ c && c ≤ 'F' then some (c.toNat - 'A'.toNat + 10)
  else if 'a' ≤ c && c ≤ 'f' then some (c.toNat - 'a'.toNat + 10)
  else none

def htoi64Step (val : Nat) (c : Char) : Option Nat :=
  (htoiDigit c).map fun digit => (val * 16 + digit) % 2 ^ 64

/-- `htoi64`: zero when a character is no digit. -/
def htoi64 (s : CString) : Nat :=
  let digits :=
    match s with
    | '0' :: 'x' :: rest => rest
    | '0' :: 'X' :: rest => rest
    | _ => s
  (digits.foldlM htoi64Step 0).getD 0

/-- A digit or one of the letters `a` to `f`. -/
def isLowerHexDigit (c : Char) : Bool :=
  ('0' ≤ c && c ≤ '9') || ('a' ≤ c && c ≤ 'f')

/-- Only digits and the letters `a` to `f` occur. -/
def LowerHex (s : CString) : Prop :=
  ∀ c ∈ s, isLowerHexDigit c = true

instance (s : CString) : Decidable (LowerHex s) :=
  List.decidableBAll _ _

/-! ## Lengths -/

@[simp]
theorem length_hexByte (byte : UInt8) : (hexByte byte).length = 2 :=
  rfl

@[simp]
theorem length_hexlify (bytes : List UInt8) :
    (hexlify bytes).length = 2 * bytes.length := by
  induction bytes with
  | nil =>
      rfl
  | cons byte bytes ih =>
      have unfolded :
          hexlify (byte :: bytes) = hexByte byte ++ hexlify bytes :=
        rfl
      rw [unfolded, List.length_append, ih, length_hexByte, List.length_cons]
      omega

@[simp]
theorem length_hex8 (word : Nat) : (hex8 word).length = 8 := by
  simp [hex8]

theorem length_stringBe (s : CString) :
    (stringBe s).length = 2 * (s.length / 2) := by
  induction s using stringBe.induct with
  | case1 =>
      rfl
  | case2 single =>
      simp [stringBe]
  | case3 first second rest ih =>
      rw [stringBe, List.length_append, ih]
      simp only [List.length_cons, List.length_nil]
      omega

theorem length_binlify (s : CString) :
    (binlify s).length = s.length / 2 := by
  induction s using binlify.induct with
  | case1 =>
      rfl
  | case2 single =>
      simp [binlify]
  | case3 high low rest ih =>
      rw [binlify, List.length_cons, ih]
      simp only [List.length_cons]
      omega

@[simp]
theorem length_stringLower (s : CString) :
    (stringLower s).length = s.length := by
  simp [stringLower]

/-! ## Reversal of byte order -/

theorem stringBe_append
    (left right : CString) (even : left.length % 2 = 0) :
    stringBe (left ++ right) = stringBe right ++ stringBe left := by
  induction left using stringBe.induct with
  | case1 =>
      simp [stringBe]
  | case2 single =>
      simp at even
  | case3 first second rest ih =>
      have restEven : rest.length % 2 = 0 := by
        simp only [List.length_cons] at even
        omega
      rw [List.cons_append, List.cons_append, stringBe, ih restEven,
        stringBe, List.append_assoc]

/-- Reversing the byte order twice restores a string of whole bytes. -/
theorem stringBe_stringBe (s : CString) (even : s.length % 2 = 0) :
    stringBe (stringBe s) = s := by
  induction s using stringBe.induct with
  | case1 =>
      rfl
  | case2 single =>
      simp at even
  | case3 first second rest ih =>
      have restEven : rest.length % 2 = 0 := by
        simp only [List.length_cons] at even
        omega
      have reversedEven : (stringBe rest).length % 2 = 0 := by
        rw [length_stringBe]
        omega
      rw [stringBe, stringBe_append _ _ reversedEven, ih restEven]
      rfl

theorem stringBe_hexlify (bytes : List UInt8) :
    stringBe (hexlify bytes) = hexlify bytes.reverse := by
  induction bytes with
  | nil =>
      rfl
  | cons byte bytes ih =>
      have unfolded :
          hexlify (byte :: bytes) = hexByte byte ++ hexlify bytes :=
        rfl
      rw [unfolded, stringBe_append _ _ (by simp), ih, List.reverse_cons,
        hexlify, hexlify, List.flatMap_append]
      simp [hexByte, stringBe]

/-! ## Texts of digits -/

/-- On the whole of a string `ishexa` tests each of its characters. -/
theorem ishexa_length (text : CString) :
    ishexa text text.length = text.all isxdigit := by
  rw [Bool.eq_iff_iff, ishexa, List.all_eq_true, List.all_eq_true]
  constructor
  · intro digits c member
    obtain ⟨i, below, rfl⟩ := List.mem_iff_getElem.mp member
    have digit := digits i (List.mem_range.mpr below)
    rwa [List.getElem?_eq_getElem below] at digit
  · intro digits i within
    rw [List.mem_range] at within
    rw [List.getElem?_eq_getElem within]
    exact digits _ (List.getElem_mem within)

/-! ## Decoding what was encoded -/

theorem binvalue_hexDigit {digit : Nat} (small : digit < 16) :
    binvalue (hexDigit digit) = UInt8.ofNat digit := by
  have table :
      ∀ digit ∈ List.range 16,
        binvalue (hexDigit digit) = UInt8.ofNat digit := by
    decide
  exact table digit (List.mem_range.mpr small)

/-- A byte put together from its halves. -/
theorem toNat_nibbles
    {high low : UInt8} (highSmall : high.toNat < 16)
    (lowSmall : low.toNat < 16) :
    (high <<< 4 ||| low).toNat = high.toNat * 16 + low.toNat := by
  have shiftAmount : UInt8.toNat 4 % 8 = 4 := rfl
  have lowBound : low.toNat < 2 ^ 4 := lowSmall
  rw [UInt8.toNat_or, UInt8.toNat_shiftLeft, shiftAmount,
    Nat.shiftLeft_eq,
    Nat.mod_eq_of_lt (show high.toNat * 2 ^ 4 < 2 ^ 8 by omega),
    Nat.mul_comm, ← Nat.two_pow_add_eq_or_of_lt lowBound]
  omega

theorem nibbles_byte (byte : UInt8) :
    UInt8.ofNat (byte.toNat / 16) <<< 4 ||| UInt8.ofNat (byte.toNat % 16) =
      byte := by
  have bound : byte.toNat < 256 := byte.toNat_lt
  have high : (UInt8.ofNat (byte.toNat / 16)).toNat = byte.toNat / 16 := by
    rw [UInt8.toNat_ofNat', Nat.mod_eq_of_lt (by omega)]
  have low : (UInt8.ofNat (byte.toNat % 16)).toNat = byte.toNat % 16 := by
    rw [UInt8.toNat_ofNat', Nat.mod_eq_of_lt (by omega)]
  apply UInt8.toNat.inj
  rw [toNat_nibbles (by omega) (by omega), high, low]
  omega

theorem binlify_append
    (left right : CString) (even : left.length % 2 = 0) :
    binlify (left ++ right) = binlify left ++ binlify right := by
  induction left using binlify.induct with
  | case1 =>
      simp [binlify]
  | case2 single =>
      simp at even
  | case3 high low rest ih =>
      have restEven : rest.length % 2 = 0 := by
        simp only [List.length_cons] at even
        omega
      rw [List.cons_append, List.cons_append, binlify, ih restEven, binlify,
        List.cons_append]

theorem binlify_hexByte (byte : UInt8) : binlify (hexByte byte) = [byte] := by
  have bound : byte.toNat < 256 := byte.toNat_lt
  rw [hexByte, binlify, binvalue_hexDigit (by omega),
    binvalue_hexDigit (by omega), nibbles_byte]
  rfl

theorem binlify_hexlify (bytes : List UInt8) :
    binlify (hexlify bytes) = bytes := by
  induction bytes with
  | nil =>
      rfl
  | cons byte bytes ih =>
      have unfolded :
          hexlify (byte :: bytes) = hexByte byte ++ hexlify bytes :=
        rfl
      rw [unfolded, binlify_append _ _ (by simp), ih, binlify_hexByte]
      rfl

/-! ## Encoding what was decoded -/

theorem lowerHex_hexlify (bytes : List UInt8) : LowerHex (hexlify bytes) := by
  have table :
      ∀ digit ∈ List.range 16, isLowerHexDigit (hexDigit digit) = true := by
    decide
  intro c occurs
  obtain ⟨byte, -, inByte⟩ := List.mem_flatMap.mp occurs
  have bound : byte.toNat < 256 := byte.toNat_lt
  rw [hexByte, List.mem_cons, List.mem_singleton] at inByte
  rcases inByte with rfl | rfl
  · exact table _ (List.mem_range.mpr (by omega))
  · exact table _ (List.mem_range.mpr (by omega))

/-- The sixteen digits in lower case. -/
theorem mem_digits_of_isLowerHexDigit {c : Char}
    (digit : isLowerHexDigit c = true) :
    c ∈ (List.range 16).map hexDigit := by
  have numeric (number : Nat) (bounds : 48 ≤ number ∧ number ≤ 57) :
      Char.ofNat number = hexDigit (number - 48) := by
    rw [hexDigit, if_pos (by omega)]
    congr 1
    omega
  have letter (number : Nat) (bounds : 97 ≤ number ∧ number ≤ 102) :
      Char.ofNat number = hexDigit (number - 87) := by
    rw [hexDigit, if_neg (by omega)]
    congr 1
    omega
  have lower (bound : Char) : bound ≤ c ↔ bound.toNat ≤ c.toNat := Iff.rfl
  have upper (bound : Char) : c ≤ bound ↔ c.toNat ≤ bound.toNat := Iff.rfl
  simp only [isLowerHexDigit, Bool.or_eq_true, Bool.and_eq_true,
    decide_eq_true_eq, lower, upper] at digit
  rw [List.mem_map, ← Char.ofNat_toNat c]
  rcases digit with bounds | bounds
  · have below : c.toNat ≤ 57 := bounds.2
    exact ⟨_, List.mem_range.mpr (by omega), (numeric c.toNat bounds).symm⟩
  · have below : c.toNat ≤ 102 := bounds.2
    exact ⟨_, List.mem_range.mpr (by omega), (letter c.toNat bounds).symm⟩

theorem binvalue_of_isLowerHexDigit {c : Char}
    (digit : isLowerHexDigit c = true) :
    (binvalue c).toNat < 16 ∧ hexDigit (binvalue c).toNat = c := by
  have table :
      ∀ digit < 16,
        (binvalue (hexDigit digit)).toNat < 16 ∧
          hexDigit (binvalue (hexDigit digit)).toNat = hexDigit digit := by
    decide
  obtain ⟨number, inRange, rfl⟩ :=
    List.mem_map.mp (mem_digits_of_isLowerHexDigit digit)
  exact table number (List.mem_range.mp inRange)

/-- The two digits of a byte put together from its halves. -/
theorem hexByte_nibbles
    {high low : UInt8} (highSmall : high.toNat < 16)
    (lowSmall : low.toNat < 16) :
    hexByte (high <<< 4 ||| low) =
      [hexDigit high.toNat, hexDigit low.toNat] := by
  rw [hexByte, toNat_nibbles highSmall lowSmall]
  congr 2
  · omega
  · congr 1
    omega

/-- Decoding lower-case digits and encoding again restores them. -/
theorem hexlify_binlify
    (s : CString) (digits : LowerHex s) (even : s.length % 2 = 0) :
    hexlify (binlify s) = s := by
  induction s using binlify.induct with
  | case1 =>
      rfl
  | case2 single =>
      simp at even
  | case3 high low rest ih =>
      have restEven : rest.length % 2 = 0 := by
        simp only [List.length_cons] at even
        omega
      have restDigits : LowerHex rest := fun c occurs =>
        digits c (List.mem_cons_of_mem _ (List.mem_cons_of_mem _ occurs))
      obtain ⟨highSmall, highDigit⟩ :=
        binvalue_of_isLowerHexDigit (digits high List.mem_cons_self)
      obtain ⟨lowSmall, lowDigit⟩ :=
        binvalue_of_isLowerHexDigit
          (digits low (List.mem_cons_of_mem _ List.mem_cons_self))
      have unfolded :
          hexlify (binlify (high :: low :: rest)) =
            hexByte (binvalue high <<< 4 ||| binvalue low) ++
              hexlify (binlify rest) :=
        rfl
      rw [unfolded, hexByte_nibbles highSmall lowSmall, highDigit, lowDigit,
        ih restDigits restEven]
      rfl

/-- Lower-case digits are determined by the bytes they denote. -/
theorem binlify_injective_of_lowerHex
    {left right : CString} (leftDigits : LowerHex left)
    (rightDigits : LowerHex right) (leftEven : left.length % 2 = 0)
    (rightEven : right.length % 2 = 0)
    (same : binlify left = binlify right) : left = right := by
  rw [← hexlify_binlify left leftDigits leftEven, same,
    hexlify_binlify right rightDigits rightEven]

theorem toNat_toLower_not_upper (c : Char) :
    c.toLower.toNat < 65 ∨ 90 < c.toLower.toNat := by
  by_cases letter : c.val ≥ 'A'.val ∧ c.val ≤ 'Z'.val
  · have lowered :
        c.toLower.toNat = (c.val + ('a'.val - 'A'.val)).toNat :=
      congrArg Char.toNat (dif_pos letter)
    have lowerBound : 65 ≤ c.val.toNat := letter.1
    have upperBound : c.val.toNat ≤ 90 := letter.2
    have difference : ('a'.val - 'A'.val).toNat = 32 := by
      decide
    rw [lowered, UInt32.toNat_add, difference,
      Nat.mod_eq_of_lt (by omega)]
    exact Or.inr (by omega)
  · have unchanged : c.toLower = c :=
      dif_neg letter
    rw [unchanged]
    by_contra inside
    push Not at inside
    have lowerBound : 65 ≤ c.toNat := by
      omega
    have upperBound : c.toNat ≤ 90 := by
      omega
    exact letter ⟨lowerBound, upperBound⟩

/-- A digit in lower case is one of the lower-case digits. -/
theorem isLowerHexDigit_toLower {c : Char}
    (digit : isxdigit c.toLower = true) :
    isLowerHexDigit c.toLower = true := by
  have notUpper : ¬ ('A' ≤ c.toLower ∧ c.toLower ≤ 'F') := by
    rintro ⟨lower, upper⟩
    have lowerBound : 65 ≤ c.toLower.toNat := lower
    have upperBound : c.toLower.toNat ≤ 70 := upper
    have notLetter := toNat_toLower_not_upper c
    omega
  simp only [isxdigit, isLowerHexDigit, Bool.or_eq_true, Bool.and_eq_true,
    decide_eq_true_eq] at digit ⊢
  tauto

theorem lowerHex_stringLower_of_ishexa
    {s : CString} (digits : ishexa (stringLower s) s.length = true) :
    LowerHex (stringLower s) := by
  intro c occurs
  obtain ⟨original, -, rfl⟩ := List.mem_map.mp occurs
  apply isLowerHexDigit_toLower
  obtain ⟨i, below, here⟩ := List.mem_iff_getElem.mp occurs
  rw [ishexa, List.all_eq_true] at digits
  have digit :=
    digits i (List.mem_range.mpr (by simpa using below))
  rw [List.getElem?_eq_getElem below, here] at digit
  exact digit

theorem stringLower_of_lowerHex {s : CString} (digits : LowerHex s) :
    stringLower s = s := by
  have table : ∀ digit < 16, (hexDigit digit).toLower = hexDigit digit := by
    decide
  have kept : ∀ c ∈ s, c.toLower = c := by
    intro c occurs
    obtain ⟨number, inRange, rfl⟩ :=
      List.mem_map.mp (mem_digits_of_isLowerHexDigit (digits c occurs))
    exact table number (List.mem_range.mp inRange)
  rw [stringLower, List.map_congr_left kept, List.map_id']

end YiimpStratum.Util
