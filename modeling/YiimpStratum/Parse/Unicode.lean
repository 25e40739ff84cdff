import YiimpStratum.Library.BigEndian
import YiimpStratum.Parse.Accepted

/-!
# Escaped characters

Behind `\u` stands a unit of UTF-16, and a character above the first plane is
written as a pair of units.  The parser joins the pair to the offset of the
planes with `|`, where the offset has to be added: a carry is lost, so that
the characters of every second plane come out as those of the plane below.
-/

namespace YiimpStratum.Parse

open YiimpStratum
open YiimpStratum.Util
open YiimpStratum.Rounds
open YiimpStratum.Bits

/-! ## Characters and their texts -/

/-- The digits of a unit, most significant first. -/
def unitDigits (unit : Nat) : List Char :=
  [hexDigit (unit / 4096), hexDigit (unit / 256 % 16),
    hexDigit (unit / 16 % 16), hexDigit (unit % 16)]

def escapedUnit (unit : Nat) : List Char :=
  '\\' :: 'u' :: unitDigits unit

/-- A character by the units of UTF-16, each escaped. -/
def escaped (c : Char) : List Char :=
  if c.toNat < 0x10000 then escapedUnit c.toNat
  else
    let offset := c.toNat - 0x10000
    escapedUnit (0xD800 + offset / 0x400) ++
      escapedUnit (0xDC00 + offset % 0x400)

/-- A text of escaped characters between quotes. -/
def quoted (text : List Char) : List Char :=
  '"' :: (text.flatMap escaped ++ ['"'])

/-- The bytes of a character in UTF-8. -/
def utf8 (c : Char) : List Char :=
  (String.utf8EncodeChar c).map fun byte => Char.ofNat byte.toNat

/-- The character stands in the plane 2, 4 and so on up to 16. -/
def InEvenPlane (c : Char) : Prop :=
  0x10000 ≤ c.toNat ∧ c.toNat / 0x10000 % 2 = 0

/-- The number that the parser makes of the units of a character. -/
def pointRead (c : Char) : Nat :=
  if c.toNat < 0x10000 then c.toNat else 0x10000 ||| c.toNat - 0x10000

/-! ## Bits and arithmetic -/

/-- The test for a unit that is the first of a pair, or a second one. -/
theorem isSurrogate_iff {unit : Nat} (small : unit < 0x10000) :
    unit &&& 0xF800 = 0xD800 ↔ 0xD800 ≤ unit ∧ unit < 0xE000 := by
  have high : unit &&& 0xF800 = unit / 2 ^ 11 * 2 ^ 11 := by
    rw [show 0xF800 = (2 ^ 5 - 1) * 2 ^ 11 from rfl, and_mul,
      Nat.and_two_pow_sub_one_eq_mod, Nat.mod_eq_of_lt]
    omega
  rw [high]
  omega

/-- The offset of the planes, joined to an offset inside them. -/
theorem plane_or {offset : Nat} (small : offset < 0x100000) :
    0x10000 ||| offset =
      if offset / 0x10000 % 2 = 0 then 0x10000 + offset else offset := by
  have first : ∀ plane < 16, 1 ||| plane =
      if plane % 2 = 0 then plane + 1 else plane := by decide
  have parts :
      offset = (offset / 0x10000) <<< 16 ||| offset % 0x10000 := by
    rw [shiftLeft_or _ _ (by omega)]
    omega
  have joined :
      0x10000 ||| offset =
        (1 ||| offset / 0x10000) <<< 16 ||| offset % 0x10000 := by
    rw [Nat.shiftLeft_or_distrib, Nat.or_assoc, ← parts]
    rfl
  rw [joined, shiftLeft_or _ _ (by omega), first _ (by omega)]
  split <;> omega

/-! ## Reading an escaped character -/

theorem hexValue_hexDigit :
    ∀ digit < 16, hexValue (hexDigit digit) = digit := by
  decide

theorem readHex_unitDigits {unit : Nat} (small : unit < 0x10000)
    (i : List Char) : readHex (unitDigits unit ++ i) = some (unit, i) := by
  have first := hexValue_hexDigit (unit / 4096) (by omega)
  have second := hexValue_hexDigit (unit / 256 % 16) (by omega)
  have third := hexValue_hexDigit (unit / 16 % 16) (by omega)
  have fourth := hexValue_hexDigit (unit % 16) (by omega)
  have digits :
      ¬ (unit / 4096 = 255 ∨ unit / 256 % 16 = 255 ∨ unit / 16 % 16 = 255 ∨
        unit % 16 = 255) := by omega
  have joined :
      ((unit / 4096) <<< 4 ||| unit / 256 % 16) <<< 8 |||
          ((unit / 16 % 16) <<< 4 ||| unit % 16) = unit := by
    rw [shiftLeft_or _ 4 (by omega), shiftLeft_or _ 4 (by omega),
      shiftLeft_or _ 8 (by omega)]
    omega
  simp only [unitDigits, List.cons_append, List.nil_append, readHex, first,
    second, third, fourth, if_neg digits, joined]

/-- The units of a pair are joined. -/
theorem pair_joined {offset : Nat} (small : offset < 0x100000) :
    0x010000 ||| (0xD800 + offset / 0x400 &&& 0x3FF) <<< 10 |||
        0xDC00 + offset % 0x400 &&& 0x3FF = 0x10000 ||| offset := by
  have first : 0xD800 + offset / 0x400 &&& 0x3FF = offset / 0x400 := by
    rw [show 0x3FF = 2 ^ 10 - 1 from rfl, Nat.and_two_pow_sub_one_eq_mod]
    omega
  have second : 0xDC00 + offset % 0x400 &&& 0x3FF = offset % 0x400 := by
    rw [show 0x3FF = 2 ^ 10 - 1 from rfl, Nat.and_two_pow_sub_one_eq_mod]
    omega
  rw [first, second, Nat.or_assoc, shiftLeft_or _ 10 (by omega)]
  congr 1
  omega

/-- What stands behind `\u` is read to the end of the character. -/
theorem readUnicode_escaped (c : Char) (i : List Char) :
    ∃ digits, escaped c ++ i = '\\' :: 'u' :: digits ∧
      readUnicode digits = some (pointRead c, i) := by
  have valid : c.toNat < 0xD800 ∨ 0xDFFF < c.toNat ∧ c.toNat < 0x110000 :=
    c.valid
  unfold escaped pointRead
  split
  · rename_i small
    refine ⟨unitDigits c.toNat ++ i, rfl, ?_⟩
    have single : ¬ c.toNat &&& 0xF800 = 0xD800 := by
      rw [isSurrogate_iff small]
      omega
    rw [readUnicode, readHex_unitDigits small]
    exact if_neg single
  · rename_i large
    generalize offset_eq : c.toNat - 0x10000 = offset
    have small : offset < 0x100000 := by omega
    refine
      ⟨unitDigits (0xD800 + offset / 0x400) ++
        (escapedUnit (0xDC00 + offset % 0x400) ++ i), ?_, ?_⟩
    · simp only [escapedUnit, List.cons_append, List.append_assoc]
    · have paired : (0xD800 + offset / 0x400) &&& 0xF800 = 0xD800 := by
        rw [isSurrogate_iff (by omega)]
        omega
      rw [readUnicode, readHex_unitDigits (by omega)]
      simp only [if_pos paired, escapedUnit, List.cons_append,
        readHex_unitDigits (show 0xDC00 + offset % 0x400 < 0x10000 by omega),
        pair_joined small]

/-! ## The bytes of a character -/

/-- A byte behind the first one. -/
theorem or_tail (bits : Nat) : 0x80 ||| bits &&& 0x3F = 0x80 + bits % 64 := by
  rw [show 0x3F = 2 ^ 6 - 1 from rfl, Nat.and_two_pow_sub_one_eq_mod]
  exact mul_or 2 6 (by omega)

/-- The bytes by sums. -/
theorem encode_eq {point : Nat} (small : point < 0x110000) :
    encode point =
      if point ≤ 0x7F then [Char.ofNat point]
      else if point ≤ 0x7FF then
        [Char.ofNat (0xC0 + point / 64), Char.ofNat (0x80 + point % 64)]
      else if point ≤ 0xFFFF then
        [Char.ofNat (0xE0 + point / 4096), Char.ofNat (0x80 + point / 64 % 64),
          Char.ofNat (0x80 + point % 64)]
      else
        [Char.ofNat (0xF0 + point / 262144),
          Char.ofNat (0x80 + point / 4096 % 64),
          Char.ofNat (0x80 + point / 64 % 64),
          Char.ofNat (0x80 + point % 64)] := by
  unfold encode
  simp only [or_tail, Nat.shiftRight_eq_div_pow, Nat.reducePow]
  split
  · rfl
  · split
    · rw [show 0xC0 ||| point / 64 = 0xC0 + point / 64 from
        mul_or 6 5 (by omega)]
    · split
      · rw [show 0xE0 ||| point / 4096 = 0xE0 + point / 4096 from
          mul_or 14 4 (by omega)]
      · rw [show 0xF0 ||| point / 262144 = 0xF0 + point / 262144 from
          mul_or 30 3 (by omega)]

/-- The parser writes a character in UTF-8. -/
theorem encode_toNat (c : Char) : encode c.toNat = utf8 c := by
  have valid : c.toNat < 0xD800 ∨ 0xDFFF < c.toNat ∧ c.toNat < 0x110000 :=
    c.valid
  rw [encode_eq (by omega), utf8, String.utf8EncodeChar,
    show c.val.toNat = c.toNat from rfl]
  generalize c.toNat = point at valid
  have byte : ∀ number < 256, (UInt8.ofNat number).toNat = number :=
    fun _ => UInt8.toNat_ofNat_of_lt'
  split
  · rw [List.map_singleton, byte _ (by omega)]
  · split
    · rw [List.map_cons, List.map_singleton, byte _ (by omega),
        byte _ (by omega), Nat.mod_eq_of_lt (a := point / 64) (by omega),
        Nat.add_comm, Nat.add_comm (point % 64)]
    · split
      · simp only [List.map_cons, List.map_nil]
        rw [byte _ (by omega), byte _ (by omega), byte _ (by omega),
          Nat.mod_eq_of_lt (a := point / 4096) (by omega), Nat.add_comm,
          Nat.add_comm (point / 64 % 64), Nat.add_comm (point % 64)]
      · simp only [List.map_cons, List.map_nil]
        rw [byte _ (by omega), byte _ (by omega), byte _ (by omega),
          byte _ (by omega), Nat.mod_eq_of_lt (a := point / 262144) (by omega),
          Nat.add_comm, Nat.add_comm (point / 4096 % 64),
          Nat.add_comm (point / 64 % 64), Nat.add_comm (point % 64)]

theorem pointRead_of_not_evenPlane {c : Char} (odd : ¬ InEvenPlane c) :
    pointRead c = c.toNat := by
  have valid : c.toNat < 0xD800 ∨ 0xDFFF < c.toNat ∧ c.toNat < 0x110000 :=
    c.valid
  unfold pointRead
  split
  · rfl
  · rename_i large
    have carries : ¬ c.toNat / 0x10000 % 2 = 0 :=
      fun even => odd ⟨Nat.le_of_not_lt large, even⟩
    rw [plane_or (by omega), if_pos (by omega)]
    omega

/-- The carry is lost. -/
theorem pointRead_of_evenPlane {c : Char} (even : InEvenPlane c) :
    pointRead c = c.toNat - 0x10000 ∧ 0x20000 ≤ c.toNat := by
  have valid : c.toNat < 0xD800 ∨ 0xDFFF < c.toNat ∧ c.toNat < 0x110000 :=
    c.valid
  obtain ⟨large, plane⟩ := even
  refine ⟨?_, by omega⟩
  rw [pointRead, if_neg (by omega), plane_or (by omega), if_neg (by omega)]

/-- Above the first plane the bytes determine the character. -/
theorem encode_injective {point point' : Nat} (large : 0x10000 ≤ point)
    (small : point < 0x110000) (large' : 0x10000 ≤ point')
    (small' : point' < 0x110000) (same : encode point = encode point') :
    point = point' := by
  have byte : ∀ number < 256, (Char.ofNat number).toNat = number := by
    intro number below
    rw [Char.ofNat, dif_pos (Or.inl (by omega))]
    rfl
  rw [encode_eq small, encode_eq small', if_neg (by omega), if_neg (by omega),
    if_neg (by omega), if_neg (by omega), if_neg (by omega),
    if_neg (by omega)] at same
  simp only [List.cons.injEq, and_true] at same
  obtain ⟨first, second, third, fourth⟩ := same
  have first := congrArg Char.toNat first
  have second := congrArg Char.toNat second
  have third := congrArg Char.toNat third
  have fourth := congrArg Char.toNat fourth
  rw [byte _ (by omega), byte _ (by omega)] at first second third fourth
  omega

/-- A character comes out as itself unless its plane is even. -/
theorem encode_pointRead_iff (c : Char) :
    encode (pointRead c) = utf8 c ↔ ¬ InEvenPlane c := by
  have valid : c.toNat < 0xD800 ∨ 0xDFFF < c.toNat ∧ c.toNat < 0x110000 :=
    c.valid
  rw [← encode_toNat]
  constructor
  · intro same even
    obtain ⟨read, high⟩ := pointRead_of_evenPlane even
    rw [read] at same
    have equal :=
      encode_injective (by omega) (by omega) (by omega) (by omega) same
    omega
  · intro odd
    rw [pointRead_of_not_evenPlane odd]

theorem length_encode_pointRead (c : Char) :
    (encode (pointRead c)).length = (utf8 c).length := by
  by_cases even : InEvenPlane c
  · have valid : c.toNat < 0xD800 ∨ 0xDFFF < c.toNat ∧ c.toNat < 0x110000 :=
      c.valid
    obtain ⟨read, high⟩ := pointRead_of_evenPlane even
    rw [← encode_toNat, read, encode_eq (by omega), encode_eq (by omega)]
    simp only [if_neg (show ¬ c.toNat - 0x10000 ≤ 0x7F by omega),
      if_neg (show ¬ c.toNat - 0x10000 ≤ 0x7FF by omega),
      if_neg (show ¬ c.toNat - 0x10000 ≤ 0xFFFF by omega),
      if_neg (show ¬ c.toNat ≤ 0x7F by omega),
      if_neg (show ¬ c.toNat ≤ 0x7FF by omega),
      if_neg (show ¬ c.toNat ≤ 0xFFFF by omega), List.length_cons,
      List.length_nil]
  · rw [(encode_pointRead_iff c).mpr even]

/-! ## Texts of escaped characters -/

/-- The bytes that the parser makes of a text of escaped characters. -/
def bytesRead (text : List Char) : List Char :=
  text.flatMap fun c => encode (pointRead c)

theorem bytesRead_eq_iff (text : List Char) :
    bytesRead text = text.flatMap utf8 ↔ ∀ c ∈ text, ¬ InEvenPlane c := by
  induction text with
  | nil => simp [bytesRead]
  | cons c text ih =>
      rw [bytesRead, List.flatMap_cons, List.flatMap_cons,
        List.forall_mem_cons, ← encode_pointRead_iff, ← ih]
      constructor
      · intro same
        exact List.append_inj same (length_encode_pointRead c)
      · rintro ⟨first, later⟩
        rw [first, ← later, bytesRead]

theorem characters_escaped (text rest : List Char) :
    Characters (text.flatMap escaped ++ '"' :: rest) (bytesRead text) rest := by
  induction text with
  | nil => exact Characters.close rest
  | cons c text ih =>
      obtain ⟨digits, escape, read⟩ :=
        readUnicode_escaped c (text.flatMap escaped ++ '"' :: rest)
      rw [List.flatMap_cons, List.append_assoc, escape]
      exact Characters.unicode read ih

theorem denotes_quoted (doubles : Doubles) (text : List Char) :
    Denotes doubles (quoted text) (.string (bytesRead text)) := by
  have unmarked : skipMark (quoted text) = quoted text :=
    skipMark_cons (by decide) _
  refine ⟨[], ?_, Trailing.nil⟩
  rw [unmarked]
  exact Derives.string (characters_escaped text [])

/--
A string of escaped characters is parsed to its bytes in UTF-8 exactly when
none of the characters stands in an even plane.
-/
theorem jsonParse_quoted_iff (doubles : Doubles) {text : List Char}
    (fits : 24 * (quoted text).length < 2 ^ 31) :
    (∃ values,
      Returns (jsonParse doubles (quoted text)) (.values values) ∧
        readValue values 1 0 = some (.string (text.flatMap utf8))) ↔
      ∀ c ∈ text, ¬ InEvenPlane c := by
  have returns := jsonParse_of_denotes fits (denotes_quoted doubles text)
  have read := readValue_root (.string (bytesRead text)) (le_refl _)
  rw [← bytesRead_eq_iff]
  constructor
  · rintro ⟨values, again, found⟩
    have memory := returns.unique again
    injection memory with memory
    rw [← memory] at found
    have same := Option.some.inj (read.symm.trans found)
    injection same
  · intro same
    rw [← same]
    exact ⟨_, returns, read⟩

theorem jsonParse_quoted_iff_clef :
    (∃ values,
      Returns (jsonParse noDoubles (quoted ['𝄞'])) (.values values) ∧
        readValue values 1 0 = some (.string (['𝄞'].flatMap utf8))) ↔
      ∀ c ∈ ['𝄞'], ¬ InEvenPlane c :=
  jsonParse_quoted_iff noDoubles (by decide)

end YiimpStratum.Parse
