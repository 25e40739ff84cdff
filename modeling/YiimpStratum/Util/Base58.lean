import YiimpStratum.Util.HexText

/-!
# Addresses in base 58

`base58_decode` of `base58.cpp`: the address as a number of 26 bytes, of which
the bytes 2 to 21 are printed.  The number is kept in seven words of 32 bits,
the most significant first.  Neither the leading byte nor the checksum is
looked at.
-/

namespace YiimpStratum.Util

/-- `b58digits`, without the entries `-1`. -/
def b58digits (c : Char) : Option Nat :=
  if '1' ≤ c && c ≤ '9' then some (c.toNat - '1'.toNat)
  else if 'A' ≤ c && c ≤ 'H' then some (c.toNat - 'A'.toNat + 9)
  else if 'J' ≤ c && c ≤ 'N' then some (c.toNat - 'J'.toNat + 17)
  else if 'P' ≤ c && c ≤ 'Z' then some (c.toNat - 'P'.toNat + 22)
  else if 'a' ≤ c && c ≤ 'k' then some (c.toNat - 'a'.toNat + 33)
  else if 'm' ≤ c && c ≤ 'z' then some (c.toNat - 'm'.toNat + 44)
  else none

/-- The loop over the words `outi`, from the last one; with the carry `c`. -/
def timesAdd : List Nat → Nat → List Nat × Nat
  | [], c => ([], c)
  | word :: words, c =>
      let (words, c) := timesAdd words c
      let t := word * 58 + c
      (t % 2 ^ 32 :: words, t / 2 ^ 32 % 2 ^ 6)

/-- One character of `_blkmk_b58tobin`; the outcome is `none` at a return. -/
def b58Step (outi : List Nat) (c : Char) : Option (List Nat) := do
  let digit ← b58digits c
  let (outi, carry) := timesAdd outi digit
  if carry ≠ 0 then none
  else if outi.headD 0 / 2 ^ 16 ≠ 0 then none
  else some outi

/-- `_blkmk_b58tobin` for an array of 26 bytes. -/
def b58tobin (b58 : CString) : Option (List UInt8) := do
  let outi ← b58.foldlM b58Step (List.replicate 7 0)
  some (BigEndian.encode 2 (outi.headD 0) ++
    outi.tail.flatMap (BigEndian.encode 4))

/-- `base58_decode`; the string is empty when the outcome is `false`. -/
def base58Decode (input : CString) : Bool × CString :=
  match b58tobin input with
  | none => (false, [])
  | some outputBin => (true, hexlify ((outputBin.drop 2).take 20))

theorem timesAdd_cons (word : Nat) (words : List Nat) (c : Nat) :
    timesAdd (word :: words) c =
      ((word * 58 + (timesAdd words c).2) % 2 ^ 32 :: (timesAdd words c).1,
        (word * 58 + (timesAdd words c).2) / 2 ^ 32 % 2 ^ 6) :=
  rfl

/-! ## The length of the output -/

theorem length_timesAdd (words : List Nat) (c : Nat) :
    (timesAdd words c).1.length = words.length := by
  induction words with
  | nil =>
      rfl
  | cons word words ih =>
      rw [timesAdd_cons, List.length_cons, List.length_cons, ih]

theorem length_b58Step {outi after : List Nat} {c : Char}
    (stepped : b58Step outi c = some after) : after.length = outi.length := by
  rw [b58Step] at stepped
  obtain ⟨digit, -, rest⟩ := Option.bind_eq_some_iff.mp stepped
  dsimp only at rest
  split at rest
  · exact absurd rest (by simp)
  · split at rest
    · exact absurd rest (by simp)
    · rw [← Option.some.inj rest, length_timesAdd]

theorem length_b58Loop {b58 : CString} {outi after : List Nat}
    (looped : b58.foldlM b58Step outi = some after) :
    after.length = outi.length := by
  induction b58 generalizing outi with
  | nil =>
      rw [← Option.some.inj looped]
  | cons c b58 ih =>
      rw [List.foldlM_cons] at looped
      obtain ⟨middle, stepped, rest⟩ := Option.bind_eq_some_iff.mp looped
      rw [ih rest, length_b58Step stepped]

theorem length_flatMap_encode (width : Nat) (words : List Nat) :
    (words.flatMap (BigEndian.encode width)).length =
      width * words.length := by
  induction words with
  | nil =>
      rfl
  | cons word words ih =>
      rw [List.flatMap_cons, List.length_append, BigEndian.length_encode, ih,
        List.length_cons, Nat.mul_succ, Nat.add_comm]

theorem length_b58tobin {b58 : CString} {bin : List UInt8}
    (decoded : b58tobin b58 = some bin) : bin.length = 26 := by
  obtain ⟨outi, looped, printed⟩ := Option.bind_eq_some_iff.mp decoded
  have words := length_b58Loop looped
  rw [List.length_replicate] at words
  rw [← Option.some.inj printed, List.length_append,
    BigEndian.length_encode, length_flatMap_encode, List.length_tail, words]

/-- A decoded address has 40 digits. -/
theorem length_base58Decode {input : CString}
    (decoded : (base58Decode input).1 = true) :
    (base58Decode input).2.length = 40 := by
  rw [base58Decode] at decoded ⊢
  cases found : b58tobin input with
  | none =>
      rw [found] at decoded
      exact absurd decoded Bool.false_ne_true
  | some bin =>
      have length := length_b58tobin found
      rw [length_hexlify, List.length_take, List.length_drop, length]
      rfl

theorem base58Decode_eq_nil {input : CString}
    (failed : (base58Decode input).1 = false) :
    (base58Decode input).2 = [] := by
  rw [base58Decode] at failed ⊢
  cases found : b58tobin input with
  | none =>
      rfl
  | some bin =>
      rw [found] at failed
      exact absurd failed.symm Bool.false_ne_true

theorem hexText_base58Decode (input : CString) :
    HexText (base58Decode input).2 := by
  rw [base58Decode]
  cases b58tobin input with
  | none =>
      exact hexText_nil
  | some bin =>
      exact hexText_hexlify _

/-! ## The number -/

/-- The number in a list of words. -/
def wordsValue : List Nat → Nat
  | [] => 0
  | word :: words => word * (2 ^ 32) ^ words.length + wordsValue words

def base58Step (number : Nat) (c : Char) : Option Nat :=
  (b58digits c).map fun digit => number * 58 + digit

/-- The number of an address, when every character is a digit. -/
def base58Value (b58 : CString) : Option Nat :=
  b58.foldlM base58Step 0

/-- An address of base-58 digits with a number of at most 26 bytes. -/
def Base58Fits (b58 : CString) : Prop :=
  ∃ number ∈ base58Value b58, number < 2 ^ 208

/-- The seven words of a number below `2 ^ 208`. -/
structure WordsOf (outi : List Nat) (number : Nat) : Prop where
  length : outi.length = 7
  word : ∀ word ∈ outi, word < 2 ^ 32
  value : wordsValue outi = number
  small : number < 2 ^ 208

theorem wordsValue_lt {words : List Nat}
    (bounded : ∀ word ∈ words, word < 2 ^ 32) :
    wordsValue words < (2 ^ 32) ^ words.length := by
  induction words with
  | nil =>
      exact Nat.one_pos
  | cons word words ih =>
      have first := bounded word List.mem_cons_self
      have others := ih fun other member =>
        bounded other (List.mem_cons_of_mem _ member)
      rw [wordsValue, List.length_cons, pow_succ]
      calc word * (2 ^ 32) ^ words.length + wordsValue words
          < word * (2 ^ 32) ^ words.length + (2 ^ 32) ^ words.length := by
            omega
        _ = (word + 1) * (2 ^ 32) ^ words.length := by ring
        _ ≤ 2 ^ 32 * (2 ^ 32) ^ words.length :=
            Nat.mul_le_mul_right _ first
        _ = (2 ^ 32) ^ words.length * 2 ^ 32 := Nat.mul_comm _ _

/-- The words of the number times 58 plus the digit, and what is carried. -/
theorem timesAdd_spec {words : List Nat}
    (bounded : ∀ word ∈ words, word < 2 ^ 32) {c : Nat} (small : c < 64) :
    wordsValue (timesAdd words c).1 +
          (timesAdd words c).2 * (2 ^ 32) ^ words.length =
        wordsValue words * 58 + c ∧
      (timesAdd words c).2 < 64 ∧
        ∀ word ∈ (timesAdd words c).1, word < 2 ^ 32 := by
  induction words with
  | nil =>
      refine ⟨?_, small, fun _ member => absurd member List.not_mem_nil⟩
      simp [timesAdd, wordsValue]
  | cons word words ih =>
      have first := bounded word List.mem_cons_self
      obtain ⟨value, carry, others⟩ := ih fun other member =>
        bounded other (List.mem_cons_of_mem _ member)
      have length := length_timesAdd words c
      have carried :
          (word * 58 + (timesAdd words c).2) / 2 ^ 32 < 2 ^ 6 := by
        omega
      rw [timesAdd_cons]
      refine ⟨?_, ?_, ?_⟩
      · dsimp only
        rw [Nat.mod_eq_of_lt carried, wordsValue, wordsValue, length,
          List.length_cons, pow_succ]
        have divided :=
          Nat.div_add_mod (word * 58 + (timesAdd words c).2) (2 ^ 32)
        generalize (word * 58 + (timesAdd words c).2) / 2 ^ 32 = quotient
          at divided
        generalize (word * 58 + (timesAdd words c).2) % 2 ^ 32 = remainder
          at divided ⊢
        calc remainder * (2 ^ 32) ^ words.length +
                wordsValue (timesAdd words c).1 +
              quotient * ((2 ^ 32) ^ words.length * 2 ^ 32)
            = (2 ^ 32 * quotient + remainder) * (2 ^ 32) ^ words.length +
                wordsValue (timesAdd words c).1 := by ring
          _ = word * 58 * (2 ^ 32) ^ words.length +
                (wordsValue (timesAdd words c).1 +
                  (timesAdd words c).2 * (2 ^ 32) ^ words.length) := by
              rw [divided]
              ring
          _ = (word * (2 ^ 32) ^ words.length + wordsValue words) * 58 +
                c := by
              rw [value]
              ring
      · exact Nat.mod_lt _ (by decide)
      · intro other member
        rcases List.mem_cons.mp member with rfl | member
        · exact Nat.mod_lt _ (by decide)
        · exact others other member

theorem b58digits_lt {c : Char} {digit : Nat}
    (found : b58digits c = some digit) : digit < 64 := by
  have upper (bound : Char) : c ≤ bound ↔ c.toNat ≤ bound.toNat := Iff.rfl
  simp only [b58digits, Bool.and_eq_true, decide_eq_true_eq, upper,
    Char.reduceToNat] at found
  split_ifs at found <;> rw [← Option.some.inj found] <;> omega

/-- Seven words with nothing carried out are below `2 ^ 208` by the first. -/
theorem wordsValue_lt_iff {words : List Nat} (length : words.length = 7)
    (bounded : ∀ word ∈ words, word < 2 ^ 32) (carry : Nat) :
    (carry = 0 ∧ words.headD 0 / 2 ^ 16 = 0) ↔
      wordsValue words + carry * (2 ^ 32) ^ 7 < 2 ^ 208 := by
  cases words with
  | nil =>
      exact absurd length (by decide)
  | cons word rest =>
      have tail := wordsValue_lt fun other member =>
        bounded other (List.mem_cons_of_mem word member)
      have restLength : rest.length = 6 := by
        rw [List.length_cons] at length
        omega
      rw [restLength] at tail
      rw [wordsValue, restLength, List.headD_cons]
      omega

/-- The loop goes on exactly when the number has at most 26 bytes. -/
theorem timesAdd_fits_iff {outi : List Nat} {number digit : Nat}
    (words : WordsOf outi number) (small : digit < 64) :
    ((timesAdd outi digit).2 = 0 ∧
        (timesAdd outi digit).1.headD 0 / 2 ^ 16 = 0) ↔
      number * 58 + digit < 2 ^ 208 := by
  obtain ⟨value, -, bounded⟩ := timesAdd_spec words.word small
  have length := (length_timesAdd outi digit).trans words.length
  rw [words.length, words.value] at value
  rw [← value]
  exact wordsValue_lt_iff length bounded _

theorem wordsOf_timesAdd {outi : List Nat} {number digit : Nat}
    (words : WordsOf outi number) (small : digit < 64)
    (below : number * 58 + digit < 2 ^ 208) :
    WordsOf (timesAdd outi digit).1 (number * 58 + digit) := by
  obtain ⟨value, -, bounded⟩ := timesAdd_spec words.word small
  obtain ⟨carry, -⟩ := (timesAdd_fits_iff words small).mpr below
  rw [words.value, carry, Nat.zero_mul, Nat.add_zero] at value
  exact
    { length := (length_timesAdd outi digit).trans words.length
      word := bounded
      value := value
      small := below }

theorem b58Step_of_digit {outi : List Nat} {number digit : Nat} {c : Char}
    (words : WordsOf outi number) (found : b58digits c = some digit) :
    b58Step outi c =
      if number * 58 + digit < 2 ^ 208 then some (timesAdd outi digit).1
      else none := by
  have fits := timesAdd_fits_iff words (b58digits_lt found)
  simp only [b58Step, found, Option.bind_eq_bind, Option.bind_some, ← fits]
  by_cases carry : (timesAdd outi digit).2 = 0
  · by_cases top : (timesAdd outi digit).1.headD 0 / 2 ^ 16 = 0
    · rw [if_neg (not_not.mpr carry), if_neg (not_not.mpr top),
        if_pos ⟨carry, top⟩]
    · rw [if_neg (not_not.mpr carry), if_pos top, if_neg fun both =>
        top both.2]
  · rw [if_pos carry, if_neg fun both => carry both.1]

theorem le_of_base58Loop {b58 : CString} {number total : Nat}
    (looped : b58.foldlM base58Step number = some total) :
    number ≤ total := by
  induction b58 generalizing number with
  | nil =>
      exact (Option.some.inj looped).le
  | cons c b58 ih =>
      rw [List.foldlM_cons] at looped
      obtain ⟨middle, stepped, rest⟩ := Option.bind_eq_some_iff.mp looped
      obtain ⟨digit, -, rfl⟩ := Option.map_eq_some_iff.mp stepped
      have more := ih rest
      omega

theorem b58Loop_isSome_iff {b58 : CString} {outi : List Nat} {number : Nat}
    (words : WordsOf outi number) :
    (b58.foldlM b58Step outi).isSome = true ↔
      ∃ total ∈ b58.foldlM base58Step number, total < 2 ^ 208 := by
  induction b58 generalizing outi number with
  | nil =>
      exact iff_of_true rfl ⟨number, rfl, words.small⟩
  | cons c b58 ih =>
      rw [List.foldlM_cons, List.foldlM_cons, base58Step]
      cases found : b58digits c with
      | none =>
          simp [b58Step, found]
      | some digit =>
          rw [b58Step_of_digit words found]
          split
          · rename_i below
            exact ih (wordsOf_timesAdd words (b58digits_lt found) below)
          · rename_i large
            refine iff_of_false Bool.false_ne_true ?_
            rintro ⟨total, looped, below⟩
            have more : number * 58 + digit ≤ total :=
              le_of_base58Loop looped
            omega

/-- An address is decoded exactly when its number fits. -/
theorem base58Decode_iff (input : CString) :
    (base58Decode input).1 = true ↔ Base58Fits input := by
  have start : WordsOf (List.replicate 7 0) 0 :=
    { length := rfl
      word := by decide
      value := rfl
      small := by decide }
  rw [Base58Fits, base58Value, ← b58Loop_isSome_iff start, base58Decode,
    b58tobin]
  cases input.foldlM b58Step (List.replicate 7 0) <;> rfl

end YiimpStratum.Util
