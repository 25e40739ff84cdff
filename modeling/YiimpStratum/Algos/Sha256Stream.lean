import YiimpStratum.Algos.Sha256Rounds

/-!
# Messages in parts

A context holds the message that it was given so far: the whole blocks in its
state, the bytes behind them in its buffer.  An update adds to the message, in
whatever parts it comes, and what finishes it is the padding of the standard.
-/

namespace YiimpStratum.Algos

open YiimpStratum
open YiimpStratum.Sha256

/-! ## Blocks of the input -/

theorem absorb_snoc (hash : Registers) {front block : List UInt8}
    (whole : front.length % 64 = 0) (full : block.length = 64) :
    absorb hash (front ++ block) = compress (absorb hash front) block := by
  have last := absorb_block (absorb hash front) full []
  rw [List.append_nil] at last
  rw [absorb_append hash front block whole, last, absorb_nil]

theorem length_memcpy {array bytes : List UInt8} {offset : Nat}
    (fits : offset + bytes.length ≤ array.length) :
    (memcpy array offset bytes).length = array.length := by
  simp only [memcpy, List.length_append, List.length_take, List.length_drop]
  omega

theorem take_memcpy (array bytes : List UInt8) {offset : Nat}
    (fits : offset ≤ array.length) :
    (memcpy array offset bytes).take (offset + bytes.length) =
      array.take offset ++ bytes := by
  have front : (array.take offset).length = offset := by
    rw [List.length_take]
    omega
  rw [memcpy]
  exact List.take_left' (by rw [List.length_append, front])

/-- What a context holds: whole blocks, and the bytes behind them. -/
structure Holds (ctx : Sha256Context) (front pending : List UInt8) :
    Prop where
  whole : front.length % 64 = 0
  short : pending.length < 64
  state : lowState ctx.state = absorb .initial front
  size : ctx.buffer.length = 64
  held : ctx.buffer.take pending.length = pending

/-- The loop takes the blocks of the input and keeps what is behind them. -/
theorem holds_processBlocks {ctx : Sha256Context} {front : List UInt8}
    (holds : Holds ctx front []) (input : List UInt8) :
    ∃ blocks rest, input = blocks ++ rest ∧
      Holds (processBlocks ctx 0 input) (front ++ blocks) rest := by
  induction count : input.length / 64 generalizing ctx front input with
  | zero =>
      have short : input.length < 64 := by omega
      refine ⟨[], input, rfl, ?_⟩
      rw [processBlocks, if_neg (Nat.not_le.mpr short), List.append_nil]
      split
      · rename_i empty
        rw [empty]
        exact holds
      · have room : 0 + input.length ≤ ctx.buffer.length := by
          rw [holds.size]
          omega
        refine ⟨holds.whole, short, holds.state, ?_, ?_⟩
        · rw [length_memcpy room, holds.size]
        · have kept := take_memcpy ctx.buffer input (Nat.zero_le _)
          rw [Nat.zero_add, List.take_zero, List.nil_append] at kept
          exact kept
  | succ count ih =>
      have full : (input.take 64).length = 64 := by
        rw [List.length_take]
        omega
      have next : Holds
          { ctx with state := sha256Process ctx.state (input.take 64) }
          (front ++ input.take 64) [] := by
        refine ⟨?_, holds.short, ?_, holds.size, holds.held⟩
        · rw [List.length_append, full, Nat.add_mod_right]
          exact holds.whole
        · rw [lowState_sha256Process full, holds.state,
            absorb_snoc _ holds.whole full]
      obtain ⟨blocks, rest, parts, reached⟩ :=
        ih next (input.drop 64) (by rw [List.length_drop]; omega)
      refine ⟨input.take 64 ++ blocks, rest, ?_, ?_⟩
      · rw [List.append_assoc, ← parts, List.take_append_drop]
      · rw [processBlocks, if_pos (by omega), ← List.append_assoc]
        exact reached

theorem total_processBlocks (ctx : Sha256Context) (left : Nat)
    (input : List UInt8) :
    (processBlocks ctx left input).total0 = ctx.total0 ∧
      (processBlocks ctx left input).total1 = ctx.total1 := by
  induction count : input.length / 64 generalizing ctx input with
  | zero =>
      rw [processBlocks, if_neg (by omega)]
      split <;> exact ⟨rfl, rfl⟩
  | succ count ih =>
      rw [processBlocks, if_pos (by omega)]
      exact ih _ (input.drop 64) (by rw [List.length_drop]; omega)

/-! ## Updates -/

/-- The two words in which the bytes of a message are counted. -/
structure Counts (ctx : Sha256Context) (length : Nat) : Prop where
  total0 : ctx.total0 = BitVec.ofNat 64 (length % 2 ^ 32)
  total1 : ctx.total1 = BitVec.ofNat 64 (length / 2 ^ 32)

theorem Counts.left {ctx : Sha256Context} {length : Nat}
    (counts : Counts ctx length) :
    (ctx.total0 &&& 0x3F).toNat = length % 64 := by
  have masked : (ctx.total0 &&& 0x3F).toNat = ctx.total0.toNat % 2 ^ 6 := by
    rw [BitVec.toNat_and]
    exact Nat.and_two_pow_sub_one_eq_mod _ 6
  rw [masked, counts.total0, BitVec.toNat_ofNat]
  omega

/-- The sum with the new length, and the carry out of 32 bits. -/
theorem Counts.add {ctx : Sha256Context} {length more : Nat}
    (counts : Counts ctx length) (small : more < 2 ^ 32) :
    let total0 := (ctx.total0 + BitVec.ofNat 64 more) &&& 0xFFFFFFFF
    total0 = BitVec.ofNat 64 ((length + more) % 2 ^ 32) ∧
      (if total0 < BitVec.ofNat 64 more then ctx.total1 + 1 else ctx.total1) =
        BitVec.ofNat 64 ((length + more) / 2 ^ 32) := by
  intro total0
  have sum : total0.toNat = (length + more) % 2 ^ 32 := by
    rw [toNat_mask, counts.total0, BitVec.toNat_add, BitVec.toNat_ofNat,
      BitVec.toNat_ofNat]
    omega
  refine ⟨?_, ?_⟩
  · apply BitVec.eq_of_toNat_eq
    rw [sum, BitVec.toNat_ofNat]
    omega
  · have carry :
        total0 < BitVec.ofNat 64 more ↔ (length + more) % 2 ^ 32 < more := by
      rw [BitVec.lt_def, sum, BitVec.toNat_ofNat,
        Nat.mod_eq_of_lt (Nat.lt_trans small (by decide))]
    rw [counts.total1]
    split
    · rename_i carried
      have next : (length + more) / 2 ^ 32 = length / 2 ^ 32 + 1 := by
        have below := carry.mp carried
        omega
      rw [next, BitVec.ofNat_add]
      rfl
    · rename_i carriedNot
      have same : (length + more) / 2 ^ 32 = length / 2 ^ 32 := by
        have above := mt carry.mpr carriedNot
        omega
      rw [same]

theorem Counts.processBlocks {ctx : Sha256Context} {length : Nat}
    (counts : Counts ctx length) (left : Nat) (input : List UInt8) :
    Counts (processBlocks ctx left input) length := by
  obtain ⟨same0, same1⟩ := total_processBlocks ctx left input
  exact ⟨same0.trans counts.total0, same1.trans counts.total1⟩

section Update

variable {ctx : Sha256Context} {front pending : List UInt8}

theorem Holds.totals (holds : Holds ctx front pending)
    (total0 total1 : Uint32) :
    Holds { ctx with total0 := total0, total1 := total1 } front pending :=
  ⟨holds.whole, holds.short, holds.state, holds.size, holds.held⟩

/-- An input that does not fill the block is only kept. -/
theorem Holds.keep (holds : Holds ctx front pending) {input : List UInt8}
    (room : pending.length + input.length < 64) :
    Holds (processBlocks ctx pending.length input) front
      (pending ++ input) := by
  have size := holds.size
  rw [processBlocks, if_neg (by omega)]
  split
  · rename_i empty
    rw [empty, List.append_nil]
    exact holds
  · refine ⟨holds.whole, ?_, holds.state, ?_, ?_⟩
    · rw [List.length_append]
      exact room
    · rw [length_memcpy (by omega), size]
    · rw [List.length_append, take_memcpy _ _ (by omega), holds.held]

/-- The block in the buffer is filled up and compressed. -/
theorem Holds.fill (holds : Holds ctx front pending) {input : List UInt8}
    (full : pending.length + input.length = 64) :
    let buffer := memcpy ctx.buffer pending.length input
    Holds
      { ctx with state := sha256Process ctx.state buffer, buffer := buffer }
      (front ++ (pending ++ input)) [] := by
  intro buffer
  have size := holds.size
  have whole := holds.whole
  have length : buffer.length = 64 := by
    rw [length_memcpy (by omega), size]
  have block : buffer = pending ++ input := by
    have all :=
      take_memcpy ctx.buffer input (show pending.length ≤ _ by omega)
    rw [full, holds.held, ← length, List.take_length] at all
    exact all
  refine ⟨?_, Nat.zero_lt_succ 63, ?_, length, rfl⟩
  · rw [List.length_append, List.length_append, full]
    omega
  · rw [lowState_sha256Process length, holds.state, block,
      absorb_snoc _ whole (by rw [List.length_append, full])]

end Update

/-- The context has been given this message. -/
structure Given (ctx : Sha256Context) (message : List UInt8) : Prop where
  counts : Counts ctx message.length
  parts : ∃ front pending, message = front ++ pending ∧ Holds ctx front pending

/-- A message may come in parts; each is counted in 32 bits. -/
theorem Given.update {ctx : Sha256Context} {message : List UInt8}
    (given : Given ctx message) (input : List UInt8)
    (small : input.length < 2 ^ 32) :
    Given (sha256Update ctx input) (message ++ input) := by
  obtain ⟨counts, front, pending, rfl, holds⟩ := given
  have whole := holds.whole
  have short := holds.short
  have left : (ctx.total0 &&& 0x3F).toNat = pending.length := by
    rw [counts.left, List.length_append]
    omega
  obtain ⟨total0, total1⟩ := counts.add small
  have nonzero : BitVec.ofNat 64 input.length = 0#64 ↔ input = [] := by
    rw [BitVec.toNat_eq, BitVec.toNat_ofNat,
      Nat.mod_eq_of_lt (Nat.lt_trans small (by decide))]
    exact List.length_eq_zero_iff
  rw [← List.length_append] at total0 total1
  unfold sha256Update
  dsimp only
  rw [left]
  generalize (ctx.total0 + BitVec.ofNat 64 input.length) &&& 0xFFFFFFFF = sum0
    at total0 total1 ⊢
  generalize (if sum0 < BitVec.ofNat 64 input.length then ctx.total1 + 1
    else ctx.total1) = sum1 at total1 ⊢
  split
  · rename_i zero
    rw [nonzero.mp zero, List.append_nil]
    exact ⟨counts, front, pending, rfl, holds⟩
  · split
    · rename_i fills
      obtain ⟨-, enough⟩ := fills
      have full :
          pending.length + (input.take (64 - pending.length)).length = 64 := by
        rw [List.length_take]
        omega
      obtain ⟨blocks, rest, parts, reached⟩ :=
        holds_processBlocks ((holds.totals sum0 sum1).fill full)
          (input.drop (64 - pending.length))
      refine ⟨Counts.processBlocks ⟨total0, total1⟩ _ _, _, rest, ?_, reached⟩
      rw [List.append_assoc, List.append_assoc, ← parts, List.append_assoc,
        List.append_assoc, List.take_append_drop]
    · rename_i fits
      by_cases empty : pending = []
      · subst empty
        rw [List.length_nil]
        obtain ⟨blocks, rest, rfl, reached⟩ :=
          holds_processBlocks (holds.totals sum0 sum1) input
        refine
          ⟨Counts.processBlocks ⟨total0, total1⟩ _ _, _, rest, ?_, reached⟩
        rw [List.append_nil, List.append_assoc]
      · have room : pending.length + input.length < 64 := by
          have pos := List.length_pos_iff.mpr empty
          omega
        exact
          ⟨Counts.processBlocks ⟨total0, total1⟩ _ _, front, pending ++ input,
            List.append_assoc .., (holds.totals sum0 sum1).keep room⟩

/-! ## The end of a message -/

theorem zeros_eq (length : Nat) :
    zeros length + 1 =
      if length % 64 < 56 then 56 - length % 64 else 120 - length % 64 := by
  rw [zeros]
  split <;> omega

theorem take_sha256Padding {padn : Nat} (small : padn < 64) :
    sha256Padding.take (padn + 1) = 0x80 :: List.replicate padn 0 := by
  rw [sha256Padding, List.take_succ_cons, List.take_replicate,
    Nat.min_eq_left (by omega)]

/-- The bits of a message are counted as the standard does. -/
theorem msglen_eq {ctx : Sha256Context} {length : Nat}
    (counts : Counts ctx length) :
    putUint32 (ctx.total0 >>> 29 ||| ctx.total1 <<< 3) ++
        putUint32 (ctx.total0 <<< 3) =
      BigEndian.encode 8 (8 * length) := by
  have total0 : ctx.total0.toNat = length % 2 ^ 32 := by
    rw [counts.total0, BitVec.toNat_ofNat]
    omega
  have lower : (low (ctx.total0 <<< 3)).toNat = 8 * length % 2 ^ 32 := by
    rw [toNat_low, BitVec.toNat_shiftLeft, total0, Nat.shiftLeft_eq]
    omega
  have upper :
      (low (ctx.total0 >>> 29 ||| ctx.total1 <<< 3)).toNat =
        8 * length / 2 ^ 32 % 2 ^ 32 := by
    have eighth : ctx.total0.toNat / 2 ^ 29 < 2 ^ 3 := by
      rw [total0]
      omega
    rw [low_or, low_shiftLeft, BitVec.toNat_or, BitVec.toNat_shiftLeft,
      toNat_low, toNat_low, counts.total1, BitVec.toNat_ushiftRight,
      Nat.shiftRight_eq_div_pow, Nat.shiftLeft_eq, BitVec.toNat_ofNat]
    have high :
        length / 2 ^ 32 % 2 ^ 64 % 2 ^ 32 * 2 ^ 3 % 2 ^ 32 =
          length / 2 ^ 32 % 2 ^ 29 * 2 ^ 3 := by
      omega
    rw [high, Nat.mod_eq_of_lt (Nat.lt_trans eighth (by decide)), Nat.or_comm,
      Bits.mul_or _ 3 eighth, total0]
    omega
  calc putUint32 (ctx.total0 >>> 29 ||| ctx.total1 <<< 3) ++
          putUint32 (ctx.total0 <<< 3)
      = BigEndian.encode 4 (8 * length / 256 ^ 4 % 256 ^ 4) ++
          BigEndian.encode 4 (8 * length % 256 ^ 4) := by
        rw [putUint32_eq, putUint32_eq, upper, lower]
        rfl
    _ = BigEndian.encode 8 (8 * length) := by
        rw [BigEndian.encode_mod, BigEndian.encode_mod]
        exact (BigEndian.encode_add 4 4 _).symm

theorem putUint32_state (state : Variables) :
    putUint32 state.A ++ putUint32 state.B ++ putUint32 state.C ++
        putUint32 state.D ++ putUint32 state.E ++ putUint32 state.F ++
        putUint32 state.G ++ putUint32 state.H =
      digest (lowState state) := by
  simp only [putUint32_eq, digest, Registers.words, lowState, roles,
    List.flatMap_cons, List.flatMap_nil, List.append_nil, List.append_assoc,
    Nat.zero_mod]

/-- A finished message is padded, and its digest is written. -/
theorem Given.finish {ctx : Sha256Context} {message : List UInt8}
    (given : Given ctx message) :
    sha256Finish ctx = sha256 message := by
  have counts := given.counts
  have padn :
      (if message.length % 64 < 56 then 56 - message.length % 64
        else 120 - message.length % 64) = zeros message.length + 1 :=
    (zeros_eq _).symm
  have zeros_lt : zeros message.length < 64 := Nat.mod_lt _ (by decide)
  have padded :=
    (given.update (0x80 :: List.replicate (zeros message.length) 0)
      (by rw [List.length_cons, List.length_replicate]; omega)).update
      (BigEndian.encode 8 (8 * message.length))
      (by rw [BigEndian.length_encode]; decide)
  obtain ⟨-, front, pending, parts, holds⟩ := padded
  have total := length_padding message.length
  have shape :
      (message ++ 0x80 :: List.replicate (zeros message.length) 0) ++
          BigEndian.encode 8 (8 * message.length) =
        message ++ padding message.length := by
    rw [padding, List.append_assoc, List.cons_append]
  rw [shape] at parts
  have processed : pending = [] := by
    have lengths := congrArg List.length parts
    have whole := holds.whole
    have short := holds.short
    rw [List.length_append, List.length_append] at lengths
    exact List.length_eq_zero_iff.mp (by omega)
  rw [processed, List.append_nil] at parts
  unfold sha256Finish
  dsimp only
  rw [msglen_eq counts, counts.left, padn, take_sha256Padding zeros_lt,
    putUint32_state, holds.state, ← parts, sha256]

/-- A context on the stack has been given nothing. -/
theorem given_sha256Starts {stack : List UInt8} (size : stack.length = 64) :
    Given (sha256Starts stack) [] := by
  refine ⟨⟨rfl, rfl⟩, [], [], rfl, rfl, Nat.zero_lt_succ 63, ?_, size, rfl⟩
  rw [absorb_nil]
  rfl

/-! ## The hash functions -/

theorem sha256Hash_eq {stack : List UInt8} (size : stack.length = 64)
    (memory : List UInt8) (len : Nat)
    (fits : (hashed memory len).length < 2 ^ 32) :
    sha256Hash stack memory len = sha256 (hashed memory len) :=
  ((given_sha256Starts size).update _ fits).finish

example : sha256Hash (List.replicate 64 0) [97, 98, 99] 3 =
    [0xba, 0x78, 0x16, 0xbf, 0x8f, 0x01, 0xcf, 0xea,
      0x41, 0x41, 0x40, 0xde, 0x5d, 0xae, 0x22, 0x23,
      0xb0, 0x03, 0x61, 0xa3, 0x96, 0x17, 0x7a, 0x9c,
      0xb4, 0x10, 0xff, 0x61, 0xf2, 0x00, 0x15, 0xad] := by
  decide +kernel

/-- The updates with the parts of a message, one after the other. -/
def updates (ctx : Sha256Context) (parts : List (List UInt8)) :
    Sha256Context :=
  parts.foldl sha256Update ctx

theorem Given.updates {ctx : Sha256Context} {message : List UInt8}
    (given : Given ctx message) {parts : List (List UInt8)}
    (small : ∀ part ∈ parts, part.length < 2 ^ 32) :
    Given (updates ctx parts) (message ++ parts.flatten) := by
  induction parts generalizing ctx message with
  | nil =>
      rw [List.flatten_nil, List.append_nil]
      exact given
  | cons part parts ih =>
      obtain ⟨first, others⟩ := List.forall_mem_cons.mp small
      rw [List.flatten_cons, ← List.append_assoc]
      exact ih (given.update part first) others

/--
The digest of a message does not depend on the parts in which the context gets
it, nor on what the stack held: it is that of the standard.
-/
theorem sha256Finish_updates {stack : List UInt8} (size : stack.length = 64)
    (parts : List (List UInt8))
    (small : ∀ part ∈ parts, part.length < 2 ^ 32) :
    sha256Finish (updates (sha256Starts stack) parts) =
      sha256 parts.flatten :=
  ((given_sha256Starts size).updates small).finish

theorem sha256Finish_updates_abc :
    sha256Finish
        (updates (sha256Starts (List.replicate 64 0)) [[97], [98, 99]]) =
      sha256 [97, 98, 99] :=
  sha256Finish_updates rfl [[97], [98, 99]] (by decide)

/-- The hash of the hash, for the two contexts on the stack. -/
theorem sha256DoubleHash_eq {stack stack' : List UInt8}
    (size : stack.length = 64) (size' : stack'.length = 64)
    (memory : List UInt8) (len : Nat)
    (fits : (hashed memory len).length < 2 ^ 32) :
    sha256DoubleHash stack stack' memory len =
      sha256 (sha256 (hashed memory len)) := by
  have whole : hashed (sha256 (hashed memory len)) 32 =
      sha256 (hashed memory len) := by
    rw [hashed, if_neg (by decide)]
    exact List.take_of_length_le (Nat.le_of_eq (length_sha256 _))
  rw [sha256DoubleHash, sha256Hash_eq size memory len fits,
    sha256Hash_eq size' _ 32 (by rw [whole, length_sha256]; decide), whole]

end YiimpStratum.Algos
