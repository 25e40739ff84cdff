import YiimpStratum.Algos.Sha256
import YiimpStratum.Library.BigEndian

/-!
# The rounds on wide words

The low halves of the words are those of the standard: what is above them is
never shifted down.  The calls of `P` with the variables in turn are rounds in
which the variables move on.
-/

namespace YiimpStratum.Algos

open YiimpStratum
open YiimpStratum.Sha256

/-! ## Low halves -/

/-- The low half of a word. -/
def low (x : Uint32) : Word :=
  x.setWidth 32

/-- The low words of a sum. -/
@[simp]
theorem low_add (x y : Uint32) : low (x + y) = low x + low y :=
  BitVec.setWidth_add x y (by omega)

@[simp]
theorem low_and (x y : Uint32) : low (x &&& y) = low x &&& low y :=
  BitVec.setWidth_and

@[simp]
theorem low_or (x y : Uint32) : low (x ||| y) = low x ||| low y :=
  BitVec.setWidth_or

@[simp]
theorem low_xor (x y : Uint32) : low (x ^^^ y) = low x ^^^ low y :=
  BitVec.setWidth_xor

/-- The low word is the number modulo its size. -/
@[simp]
theorem toNat_low (x : Uint32) : (low x).toNat = x.toNat % 2 ^ 32 :=
  BitVec.toNat_setWidth ..

/-- The mask of 32 bits keeps the low word. -/
theorem toNat_mask (x : Uint32) :
    (x &&& 0xFFFFFFFF).toNat = x.toNat % 2 ^ 32 := by
  rw [BitVec.toNat_and]
  exact Nat.and_two_pow_sub_one_eq_mod x.toNat 32

/-- `SHR` shifts the low word only. -/
theorem toNat_shr (x : Uint32) (n : Nat) :
    (shr x n).toNat = x.toNat % 2 ^ 32 / 2 ^ n := by
  rw [shr, BitVec.toNat_ushiftRight, toNat_mask, Nat.shiftRight_eq_div_pow]

/-- `SHR` is the shift of the standard. -/
@[simp]
theorem low_shr (x : Uint32) (n : Nat) : low (shr x n) = low x >>> n := by
  apply BitVec.eq_of_toNat_eq
  rw [toNat_low, toNat_shr, BitVec.toNat_ushiftRight, toNat_low,
    Nat.shiftRight_eq_div_pow]
  exact Nat.mod_eq_of_lt
    (Nat.lt_of_le_of_lt (Nat.div_le_self ..) (Nat.mod_lt _ (by decide)))

theorem low_shiftLeft (x : Uint32) (n : Nat) :
    low (x <<< n) = low x <<< n := by
  ext i inside
  simp [low, BitVec.getElem_setWidth]

/-- What is shifted out on the right comes back on the left. -/
theorem low_rotr (x : Uint32) {n : Nat} (small : n < 32) :
    low (rotr x n) = (low x).rotateRight n := by
  rw [rotr, low_or, low_shr, low_shiftLeft, BitVec.rotateRight,
    Nat.mod_eq_of_lt small]
  rfl

/-- `S0` is the function of the schedule. -/
theorem low_s0 (x : Uint32) : low (s0 x) = smallSigma0 (low x) := by
  simp [s0, smallSigma0, low_rotr]

/-- `S1` is the second function of the schedule. -/
theorem low_s1 (x : Uint32) : low (s1 x) = smallSigma1 (low x) := by
  simp [s1, smallSigma1, low_rotr]

/-- `S2` is the first function of the rounds. -/
theorem low_s2 (x : Uint32) : low (s2 x) = bigSigma0 (low x) := by
  simp [s2, bigSigma0, low_rotr]

/-- `S3` is the second function of the rounds. -/
theorem low_s3 (x : Uint32) : low (s3 x) = bigSigma1 (low x) := by
  simp [s3, bigSigma1, low_rotr]

/-- `F0` is the majority. -/
theorem low_f0 (x y z : Uint32) :
    low (f0 x y z) = maj (low x) (low y) (low z) := by
  simp only [f0, maj, low_and, low_or]
  ext i inside
  simp only [BitVec.getElem_or, BitVec.getElem_and, BitVec.getElem_xor]
  cases (low x)[i] <;> cases (low y)[i] <;> cases (low z)[i] <;> rfl

/-- `F1` is the choice. -/
theorem low_f1 (x y z : Uint32) :
    low (f1 x y z) = ch (low x) (low y) (low z) := by
  simp only [f1, ch, low_and, low_xor]
  ext i inside
  simp only [BitVec.getElem_not, BitVec.getElem_and, BitVec.getElem_xor]
  cases (low x)[i] <;> cases (low y)[i] <;> cases (low z)[i] <;> rfl

/-! ## The words of a block -/

/-- The constants are those of the standard. -/
theorem low_K (t : Nat) : low (K t) = constant t := by
  have table : constants = Ks.map low := rfl
  rw [constant, table, K]
  exact (List.getD_map Ks 0 low).symm

theorem toNat_ofByte (byte : UInt8) : (ofByte byte).toNat = byte.toNat := by
  have small := byte.toNat_lt
  rw [ofByte, BitVec.toNat_setWidth]
  exact Nat.mod_eq_of_lt (Nat.lt_of_lt_of_le small (by decide))

/-- `GET_UINT32` reads four bytes, the highest first. -/
theorem toNat_getUint32 (b₀ b₁ b₂ b₃ : UInt8) (b : List UInt8) :
    (getUint32 (b₀ :: b₁ :: b₂ :: b₃ :: b) 0).toNat =
      BigEndian.value [b₀, b₁, b₂, b₃] := by
  have small₀ := b₀.toNat_lt
  have small₁ := b₁.toNat_lt
  have small₂ := b₂.toNat_lt
  have small₃ := b₃.toNat_lt
  have joined :
      b₀.toNat <<< 24 ||| b₁.toNat <<< 16 ||| b₂.toNat <<< 8 ||| b₃.toNat =
        ((b₀.toNat * 256 + b₁.toNat) * 256 + b₂.toNat) * 256 + b₃.toNat := by
    have third : b₂.toNat <<< 8 ||| b₃.toNat < 2 ^ 16 := by
      rw [Bits.shiftLeft_or _ 8 (by omega)]
      omega
    have second :
        b₁.toNat <<< 16 ||| (b₂.toNat <<< 8 ||| b₃.toNat) < 2 ^ 24 := by
      rw [Bits.shiftLeft_or _ 16 third, Bits.shiftLeft_or _ 8 (by omega)]
      omega
    rw [Nat.or_assoc, Nat.or_assoc, Bits.shiftLeft_or _ 24 second,
      Bits.shiftLeft_or _ 16 third, Bits.shiftLeft_or _ 8 (by omega)]
    omega
  have narrow (byte : UInt8) {n : Nat} (fits : n ≤ 24) :
      (ofByte byte <<< n).toNat = byte.toNat <<< n := by
    have small := byte.toNat_lt
    rw [BitVec.toNat_shiftLeft, toNat_ofByte, Nat.shiftLeft_eq]
    apply Nat.mod_eq_of_lt
    calc byte.toNat * 2 ^ n < 2 ^ 8 * 2 ^ n :=
          Nat.mul_lt_mul_of_pos_right small (Nat.two_pow_pos n)
      _ ≤ 2 ^ 8 * 2 ^ 24 :=
          Nat.mul_le_mul_left _ (Nat.pow_le_pow_right (by decide) fits)
      _ ≤ 2 ^ 64 := by decide
  calc (getUint32 (b₀ :: b₁ :: b₂ :: b₃ :: b) 0).toNat
      = b₀.toNat <<< 24 ||| b₁.toNat <<< 16 ||| b₂.toNat <<< 8 |||
          b₃.toNat := by
        simp [getUint32, narrow, toNat_ofByte]
    _ = BigEndian.value [b₀, b₁, b₂, b₃] := by
        rw [joined]
        simp [BigEndian.value]

/-- A word is read from its place on. -/
theorem getUint32_drop (b : List UInt8) (i : Nat) :
    getUint32 b i = getUint32 (b.drop i) 0 := by
  simp [getUint32, List.getD_eq_getElem?_getD]

/-- The words of a block are those of the standard. -/
theorem low_getUint32 {data : List UInt8} {i : Nat}
    (inside : i + 4 ≤ data.length) :
    low (getUint32 data i) =
      BitVec.ofNat 32 (BigEndian.value ((data.drop i).take 4)) := by
  have long : 4 ≤ (data.drop i).length := by
    rw [List.length_drop]
    omega
  rw [getUint32_drop]
  generalize data.drop i = bytes at long
  match bytes, long with
  | b₀ :: b₁ :: b₂ :: b₃ :: b, _ =>
      apply BitVec.eq_of_toNat_eq
      rw [toNat_low, toNat_getUint32, BitVec.toNat_ofNat]
      rfl

theorem toByte_shiftRight (n : Uint32) (k : Nat) :
    toByte (n >>> k) = UInt8.ofNat (n.toNat / 2 ^ k % 256) := by
  apply UInt8.toNat.inj
  rw [UInt8.toNat_ofNat_of_lt' (Nat.mod_lt _ (by decide))]
  change ((n >>> k).setWidth 8).toNat = _
  rw [BitVec.toNat_setWidth, BitVec.toNat_ushiftRight,
    Nat.shiftRight_eq_div_pow]

/-- `PUT_UINT32` writes the low word, the highest byte first. -/
theorem putUint32_eq (n : Uint32) :
    putUint32 n = BigEndian.encode 4 (low n).toNat := by
  have last : toByte n = UInt8.ofNat (n.toNat % 256) := by
    simpa using toByte_shiftRight n 0
  have first : n.toNat % 2 ^ 32 / 256 / 256 / 256 % 256 =
      n.toNat / 2 ^ 24 % 256 := by omega
  have second : n.toNat % 2 ^ 32 / 256 / 256 % 256 =
      n.toNat / 2 ^ 16 % 256 := by omega
  have third : n.toNat % 2 ^ 32 / 256 % 256 = n.toNat / 2 ^ 8 % 256 := by
    omega
  have fourth : n.toNat % 2 ^ 32 % 256 = n.toNat % 256 := by omega
  rw [putUint32, toByte_shiftRight, toByte_shiftRight, toByte_shiftRight, last,
    toNat_low]
  simp only [BigEndian.encode, List.nil_append, List.cons_append, first, second,
    third, fourth]

/-! ## The calls of `P` -/

/-- The variables as they are handed to the next call. -/
def roles (t : Nat) (v : Variables) : Registers :=
  match t % 8 with
  | 0 => ⟨low v.A, low v.B, low v.C, low v.D, low v.E, low v.F, low v.G, low v.H⟩
  | 1 => ⟨low v.H, low v.A, low v.B, low v.C, low v.D, low v.E, low v.F, low v.G⟩
  | 2 => ⟨low v.G, low v.H, low v.A, low v.B, low v.C, low v.D, low v.E, low v.F⟩
  | 3 => ⟨low v.F, low v.G, low v.H, low v.A, low v.B, low v.C, low v.D, low v.E⟩
  | 4 => ⟨low v.E, low v.F, low v.G, low v.H, low v.A, low v.B, low v.C, low v.D⟩
  | 5 => ⟨low v.D, low v.E, low v.F, low v.G, low v.H, low v.A, low v.B, low v.C⟩
  | 6 => ⟨low v.C, low v.D, low v.E, low v.F, low v.G, low v.H, low v.A, low v.B⟩
  | _ => ⟨low v.B, low v.C, low v.D, low v.E, low v.F, low v.G, low v.H, low v.A⟩

/-- `P` is a round of the compression. -/
theorem round_low (a b c d e f g h x k : Uint32) :
    Registers.round
        ⟨low a, low b, low c, low d, low e, low f, low g, low h⟩ (low k)
        (low x) =
      ⟨low (p a b c d e f g h x k).2, low a, low b, low c,
        low (p a b c d e f g h x k).1, low e, low f, low g⟩ := by
  simp only [Registers.round, p, low_add, low_s2, low_s3, low_f0, low_f1]

/-- A call is a round, and then the variables have moved on. -/
theorem roles_callP (t : Nat) (v : Variables) (x : Uint32) :
    roles (t + 1) (callP t v x) =
      (roles t v).round (constant t) (low x) := by
  have turn :
      t % 8 = 0 ∨ t % 8 = 1 ∨ t % 8 = 2 ∨ t % 8 = 3 ∨ t % 8 = 4 ∨ t % 8 = 5 ∨
        t % 8 = 6 ∨ t % 8 = 7 := by omega
  rw [← low_K]
  rcases turn with now | now | now | now | now | now | now | now
  · have next : (t + 1) % 8 = 1 := by omega
    simp only [roles, callP, now, next, round_low]
  · have next : (t + 1) % 8 = 2 := by omega
    simp only [roles, callP, now, next, round_low]
  · have next : (t + 1) % 8 = 3 := by omega
    simp only [roles, callP, now, next, round_low]
  · have next : (t + 1) % 8 = 4 := by omega
    simp only [roles, callP, now, next, round_low]
  · have next : (t + 1) % 8 = 5 := by omega
    simp only [roles, callP, now, next, round_low]
  · have next : (t + 1) % 8 = 6 := by omega
    simp only [roles, callP, now, next, round_low]
  · have next : (t + 1) % 8 = 7 := by omega
    simp only [roles, callP, now, next, round_low]
  · have next : (t + 1) % 8 = 0 := by omega
    simp only [roles, callP, now, next, round_low]

/-! ## The compression -/

/-- What the calls for a block have reached. -/
structure Called (data : List UInt8) (start : Variables) (t : Nat)
    (W : List Uint32) (v : Variables) : Prop where
  length : W.length = max 16 t
  words : ∀ j < W.length, low (W.getD j 0) = schedule data j
  moved : roles t v = rounds data (roles 0 start) t

/-- `R(t)` stores the next word of the schedule. -/
theorem Called.extend {data : List UInt8} {start v : Variables} {t : Nat}
    {W : List Uint32} (called : Called data start t W v) :
    (extend W t).length = max 16 (t + 1) ∧
      ∀ j < (extend W t).length,
        low ((extend W t).getD j 0) = schedule data j := by
  have length := called.length
  rw [Algos.extend]
  split
  · rename_i first
    exact ⟨by omega, called.words⟩
  · rename_i later
    have reads (back : Nat) (small : back ≤ 16) (pos : 0 < back) :
        low (W.getD (t - back) 0) = schedule data (t - back) :=
      called.words _ (by omega)
    refine ⟨by rw [List.length_append, List.length_singleton]; omega, ?_⟩
    intro j inside
    rw [List.length_append, List.length_singleton] at inside
    by_cases old : j < W.length
    · rw [List.getD_append _ _ _ _ old]
      exact called.words j old
    · obtain rfl : j = W.length := by omega
      have place : W.length = t := by omega
      rw [List.getD_append_right _ _ _ _ (Nat.le_refl _), Nat.sub_self,
        List.getD_cons_zero, low_add, low_add, low_add, low_s1, low_s0,
        reads 2 (by omega) (by omega), reads 7 (by omega) (by omega),
        reads 15 (by omega) (by omega), reads 16 (by omega) (by omega), place,
        schedule_of_le data (show 16 ≤ t by omega)]

/-- The words that the rounds are called with. -/
theorem called_calls {data : List UInt8} (full : data.length = 64)
    (start : Variables) (t : Nat) :
    Called data start t
      (calls ((List.range 16).map fun t => getUint32 data (4 * t)) start t).1
      (calls ((List.range 16).map fun t => getUint32 data (4 * t)) start
        t).2 := by
  induction t with
  | zero =>
      refine ⟨by simp [calls], ?_, rfl⟩
      intro j inside
      rw [calls, List.length_map, List.length_range] at inside
      have word :
          (((List.range 16).map fun t => getUint32 data (4 * t)).getD j 0) =
            getUint32 data (4 * j) := by
        simp [List.getD_eq_getElem?_getD, inside]
      rw [calls, word, schedule_of_lt data inside,
        low_getUint32 (by omega), blockWord]
  | succ t ih =>
      obtain ⟨length, words⟩ := ih.extend
      refine ⟨length, words, ?_⟩
      have next := words t (by omega)
      rw [calls, roles_callP, ih.moved, next, rounds]

/-- The words of the standard in the state of a context. -/
def lowState (state : Variables) : Registers :=
  roles 0 state

/-- A block is compressed as the standard has it. -/
theorem lowState_sha256Process {data : List UInt8} (full : data.length = 64)
    (state : Variables) :
    lowState (sha256Process state data) = compress (lowState state) data := by
  have called := (called_calls full state 64).moved
  rw [compress, lowState, lowState, ← called]
  simp only [roles, sha256Process, Registers.add, Nat.zero_mod,
    Nat.reduceMod, low_add]

end YiimpStratum.Algos
