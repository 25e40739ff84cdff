import YiimpStratum.Coinbase.Create

/-!
# Outputs with the right lengths

An output is exact when its texts are whole bytes and the byte in front of the
script is the length of the script.  For every way in which `coinbase_create`
packs an output this says what it needs from the payee, from the keys of the
coin or from the commitment.
-/

namespace YiimpStratum.Coinbase

open YiimpStratum.Util
open YiimpStratum.Submit

/-! ## Exact texts -/

/-- The value has eight bytes, and the length byte is that of the script. -/
structure TxOut.Exact (out : TxOut) : Prop where
  value : HexText out.value
  length_value : out.value.length = 16
  script : HexText out.script
  short : out.script.length < 2 * 253
  scriptLength : out.scriptLength = hex2 (out.script.length / 2)

/-- The count is that of the outputs, and four bytes follow them. -/
structure Body.Exact (body : Body) : Prop where
  count : body.count = hex2 body.outputs.length
  few : body.outputs.length < 253
  outputs : ∀ out ∈ body.outputs, out.Exact
  locktime : HexText body.locktime
  length_locktime : body.locktime.length = 8

theorem exact_written_iff (count : CString) (outputs : List TxOut) :
    (Body.written count outputs).Exact ↔
      count = hex2 outputs.length ∧ outputs.length < 253 ∧
        ∀ out ∈ outputs, out.Exact := by
  constructor
  · intro exactBody
    exact ⟨exactBody.count, exactBody.few, exactBody.outputs⟩
  · rintro ⟨counted, few, outputs⟩
    exact
      { count := counted
        few := few
        outputs := outputs
        locktime := (by decide : HexText "00000000".toList)
        length_locktime := rfl }

/-- A body that was not written is not exact. -/
theorem not_exact_empty : ¬ Body.empty.Exact := fun exactBody =>
  absurd exactBody.length_locktime (by decide)

/-! ## Bytes and values -/

/-- The numbers of a byte have different texts. -/
theorem hex2_injective {left right : Nat} (leftSmall : left < 256)
    (rightSmall : right < 256) (same : hex2 left = hex2 right) :
    left = right := by
  rw [hex2_of_lt leftSmall, hex2_of_lt rightSmall] at same
  have bytes := congrArg binlify same
  rw [binlify_hexByte, binlify_hexByte, List.cons.injEq] at bytes
  have values := congrArg UInt8.toNat bytes.1
  rw [UInt8.toNat_ofNat', UInt8.toNat_ofNat'] at values
  omega

theorem length_hex2 {number : Nat} (small : number < 256) :
    (hex2 number).length = 2 := by
  rw [hex2_of_lt small, length_hexByte]

theorem hexText_hex2 {number : Nat} (small : number < 256) :
    HexText (hex2 number) := by
  have single := hexText_hexlify [UInt8.ofNat number]
  rw [hex2_of_lt small]
  rwa [hexlify, List.flatMap_singleton] at single

/-- A value takes eight bytes. -/
theorem length_encodeTxValue (amount : Int) :
    (encodeTxValue amount).length = 16 := by
  rw [encodeTxValue, length_hexlify]
  rfl

theorem hexText_encodeTxValue (amount : Int) :
    HexText (encodeTxValue amount) :=
  hexText_hexlify _

/-- The text in the middle is whole bytes when those around it are. -/
theorem hexText_middle_iff {front back : CString} (first : HexText front)
    (last : HexText back) (middle : CString) :
    HexText (front ++ middle ++ back) ↔ HexText middle := by
  constructor
  · intro hex
    have even : (front ++ middle).length % 2 = 0 := by
      have total := hex.1
      have lastEven := last.1
      rw [List.length_append] at total
      omega
    rw [hexText_append_iff even, hexText_append_iff first.1] at hex
    exact hex.1.2
  · intro hex
    exact (first.append hex).append last

/-- An output whose script is a text between two fixed ones. -/
theorem exact_around_iff {front back : CString} (first : HexText front)
    (last : HexText back) (amount : Int) (scriptLength middle : CString) :
    (TxOut.mk (encodeTxValue amount) scriptLength
          (front ++ middle ++ back)).Exact ↔
      HexText middle ∧ (front ++ middle ++ back).length < 2 * 253 ∧
        scriptLength = hex2 ((front ++ middle ++ back).length / 2) := by
  rw [← hexText_middle_iff first last middle]
  constructor
  · intro exactOut
    exact ⟨exactOut.script, exactOut.short, exactOut.scriptLength⟩
  · rintro ⟨script, short, length⟩
    exact
      { value := hexText_encodeTxValue amount
        length_value := length_encodeTxValue amount
        script := script
        short := short
        scriptLength := length }

/-- The same with a fixed length byte. -/
theorem exact_fixed_iff {front back : CString} (first : HexText front)
    (last : HexText back) (amount : Int) {bytes : Nat} (few : bytes < 253)
    (middle : CString) :
    (TxOut.mk (encodeTxValue amount) (hex2 bytes)
          (front ++ middle ++ back)).Exact ↔
      HexText middle ∧
        front.length + middle.length + back.length = 2 * bytes := by
  have length :
      (front ++ middle ++ back).length =
        front.length + middle.length + back.length := by
    rw [List.length_append, List.length_append]
  rw [exact_around_iff first last]
  refine and_congr_right fun hex => ?_
  have even := ((hexText_middle_iff first last middle).mpr hex).1
  rw [length] at even ⊢
  constructor
  · rintro ⟨short, same⟩
    have counted := hex2_injective (by omega) (by omega) same
    omega
  · intro total
    rw [total, Nat.mul_div_cancel_left _ (by decide)]
    exact ⟨by omega, rfl⟩

/-! ## Texts that are read back -/

/-- What `job_pack_tx` packs for a key. -/
def keyOut (amount : Int) (key : CString) : TxOut where
  value := encodeTxValue amount
  scriptLength := "19".toList
  script := "76a914".toList ++ key ++ "88ac".toList

/-- A key of the answer is paid by `job_pack_tx`. -/
theorem jobPackTx_some (coind : CoinbaseCoind) (amount : Int)
    (key : CString) :
    jobPackTx coind amount (some key) = some (keyOut amount key) := by
  rw [jobPackTx, if_neg (by simp), if_neg (by simp)]
  rfl

/-- An output for a key is exact when the key has forty digits. -/
theorem exact_keyOut_iff (amount : Int) (key : CString) :
    (keyOut amount key).Exact ↔ HexText key ∧ key.length = 40 := by
  have front : HexText "76a914".toList := by decide
  have back : HexText "88ac".toList := by decide
  have fixed :=
    exact_fixed_iff front back amount (by decide : 25 < 253) key
  refine fixed.trans (and_congr_right fun _ => ?_)
  change 6 + key.length + 4 = 2 * 25 ↔ key.length = 40
  omega

/-- The digits of an address are there exactly when it is decoded. -/
theorem scriptPayee_iff (payee : CString) :
    (HexText (scriptPayee payee) ∧ (scriptPayee payee).length = 40) ↔
      Base58Fits payee := by
  rw [← base58Decode_iff, scriptPayee]
  constructor
  · rintro ⟨-, length⟩
    by_contra failed
    rw [base58Decode_eq_nil (Bool.eq_false_of_not_eq_true failed)] at length
    exact absurd length (by decide)
  · intro decoded
    refine ⟨?_, length_base58Decode decoded⟩
    exact hexText_base58Decode payee

/-- An output for an address is exact when its key fits. -/
theorem exact_scriptPayee_iff (amount : Int) (payee : CString) :
    (keyOut amount (scriptPayee payee)).Exact ↔ Base58Fits payee := by
  rw [exact_keyOut_iff, scriptPayee_iff]

/-- The length of an output for a key. -/
theorem length_keyOut (amount : Int) (key : CString) :
    (keyOut amount key).text.length = 28 + key.length := by
  rw [TxOut.text, keyOut, List.length_append, List.length_append,
    List.length_append, List.length_append, length_encodeTxValue]
  change 16 + 2 + (6 + key.length + 4) = _
  omega

/-! ## Scripts for a script hash -/

/-- What `p2sh_pack_tx` packs when it has room. -/
def p2shOut (amount : Int) (payee : CString) : TxOut where
  value := encodeTxValue amount
  scriptLength :=
    hex2
      (("a9".toList ++ hex2 (payee.length / 2 % 256) ++ payee ++
        "87".toList).length / 2 % 256)
  script :=
    "a9".toList ++ hex2 (payee.length / 2 % 256) ++ payee ++ "87".toList

theorem length_p2shScript (payee : CString) :
    ("a9".toList ++ hex2 (payee.length / 2 % 256) ++ payee ++
        "87".toList).length = payee.length + 6 := by
  rw [List.length_append, List.length_append, List.length_append,
    length_hex2 (Nat.mod_lt _ (by decide))]
  change 2 + 2 + payee.length + 2 = _
  omega

/-- The output for a script hash, when its text fits. -/
theorem p2shPackInto_eq (size : Nat) (amount : Int) (payee : CString) :
    p2shPackInto size amount payee =
      if payee.length + 6 < size then some (p2shOut amount payee)
      else none := by
  rw [p2shPackInto, sprintfInto, length_p2shScript]
  split <;> rfl

/-- The length byte is computed, so only the digits matter. -/
theorem exact_p2shOut_iff (amount : Int) {payee : CString}
    (short : payee.length + 6 < 256) :
    (p2shOut amount payee).Exact ↔ HexText payee := by
  have front : HexText ("a9".toList ++ hex2 (payee.length / 2 % 256)) :=
    (by decide : HexText "a9".toList).append
      (hexText_hex2 (Nat.mod_lt _ (by decide)))
  have back : HexText "87".toList := by decide
  refine (exact_around_iff front back amount _ payee).trans ?_
  rw [length_p2shScript]
  constructor
  · exact fun exactOut => exactOut.1
  · intro hex
    exact ⟨hex, by omega, by rw [Nat.mod_eq_of_lt (by omega)]⟩

/-- A decoded address has at most forty digits. -/
theorem length_scriptPayee_le (payee : CString) :
    (scriptPayee payee).length ≤ 40 := by
  rw [scriptPayee]
  cases decoded : (base58Decode payee).1 with
  | true =>
      rw [length_base58Decode decoded]
  | false =>
      rw [base58Decode_eq_nil decoded]
      exact Nat.zero_le _

/-- The output for the script hash of an address is exact. -/
theorem exact_p2shOut_scriptPayee (amount : Int) (payee : CString) :
    (p2shOut amount (scriptPayee payee)).Exact := by
  have short := length_scriptPayee_le payee
  rw [exact_p2shOut_iff amount (by omega)]
  exact hexText_base58Decode payee

/-- There is room for the script hash of an address. -/
theorem p2shPackInto_scriptPayee {size : Nat} (large : 256 ≤ size)
    (amount : Int) (payee : CString) :
    p2shPackInto size amount (scriptPayee payee) =
      some (p2shOut amount (scriptPayee payee)) := by
  have short := length_scriptPayee_le payee
  rw [p2shPackInto_eq, if_pos (by omega)]

/-- The length of an output for a script hash. -/
theorem length_p2shOut (amount : Int) (payee : CString) :
    (p2shOut amount (scriptPayee payee)).text.length =
      24 + (scriptPayee payee).length := by
  have short := length_scriptPayee_le payee
  rw [TxOut.text, p2shOut, List.length_append, List.length_append,
    length_encodeTxValue, length_hex2 (Nat.mod_lt _ (by decide)),
    length_p2shScript]
  omega

/-! ## Payees -/

/-- The output of a payee. -/
def Due.out (due : Due) : TxOut :=
  if due.p2sh then p2shOut due.amount (scriptPayee due.payee)
  else keyOut due.amount (scriptPayee due.payee)

/-- The address of a payee that is packed as a key is decoded. -/
def Due.Fits (due : Due) : Prop :=
  due.p2sh = true ∨ Base58Fits due.payee

/-- The characters that the output of a payee takes. -/
def Due.size (due : Due) : Nat :=
  (if due.p2sh then 24 else 28) + (scriptPayee due.payee).length

/-- What is due is packed into its output. -/
theorem Due.pack_eq_some (coind : CoinbaseCoind) (due : Due) :
    due.pack coind = some due.out := by
  rw [Due.pack, Due.out]
  split
  · exact p2shPackInto_scriptPayee (le_refl 256) _ _
  · exact jobPackTx_some coind _ _

/-- What is due is paid exactly when its key fits. -/
theorem Due.exact_out_iff (due : Due) : due.out.Exact ↔ due.Fits := by
  rw [Due.out, Due.Fits]
  split
  · rename_i p2sh
    exact iff_of_true (exact_p2shOut_scriptPayee _ _) (Or.inl p2sh)
  · rename_i key
    rw [exact_scriptPayee_iff, or_iff_right key]

/-- The length of the output for what is due. -/
theorem Due.length_out (due : Due) : due.out.text.length = due.size := by
  rw [Due.out, Due.size]
  split
  · exact length_p2shOut _ _
  · exact length_keyOut _ _

/-! ## The miner and the commitment -/

/-- The key or the script of the coin has the length that is written. -/
def MinerFits (coind : CoinbaseCoind) : Prop :=
  if coind.p2shAddress then
    HexText coind.scriptPubkey ∧ coind.scriptPubkey.length < 250
  else if coind.pos then HexText coind.pubkey ∧ coind.pubkey.length = 66
  else HexText coind.scriptPubkey ∧ coind.scriptPubkey.length = 40

/-- The output of the pool is exact when its key fits. -/
theorem exists_miner_iff (coind : CoinbaseCoind) (amount : Int) :
    (∃ miner ∈ jobPackTx coind amount none, miner.Exact) ↔
      MinerFits coind := by
  rw [MinerFits, jobPackTx]
  by_cases p2sh : coind.p2shAddress = true
  · rw [if_pos ⟨p2sh, rfl⟩, if_pos p2sh, p2shPackTx, p2shPackInto_eq]
    constructor
    · rintro ⟨miner, packed, exactMiner⟩
      split at packed
      · rename_i short
        obtain rfl := Option.some.inj packed
        exact ⟨(exact_p2shOut_iff amount short).mp exactMiner, by omega⟩
      · exact absurd packed (by simp)
    · rintro ⟨hex, short⟩
      rw [if_pos (by omega)]
      exact ⟨_, rfl, (exact_p2shOut_iff amount (by omega)).mpr hex⟩
  · rw [if_neg (fun both => p2sh both.1), if_neg p2sh]
    by_cases pos : coind.pos = true
    · have front : HexText "21".toList := by decide
      have back : HexText "ac".toList := by decide
      have fixed :=
        exact_fixed_iff front back amount (by decide : 35 < 253)
          coind.pubkey
      rw [if_pos ⟨pos, rfl⟩, if_pos pos]
      constructor
      · rintro ⟨_, ⟨⟩, exactMiner⟩
        obtain ⟨hex, length⟩ := fixed.mp exactMiner
        change 2 + coind.pubkey.length + 2 = 2 * 35 at length
        exact ⟨hex, by omega⟩
      · rintro ⟨hex, length⟩
        refine ⟨_, rfl, fixed.mpr ⟨hex, ?_⟩⟩
        change 2 + coind.pubkey.length + 2 = 2 * 35
        omega
    · rw [if_neg (fun both => pos both.1), if_neg pos,
        ← exact_keyOut_iff amount]
      constructor
      · rintro ⟨_, ⟨⟩, exactMiner⟩
        exact exactMiner
      · intro exactMiner
        exact ⟨_, rfl, exactMiner⟩

/-- The commitment of a template that has one is whole bytes. -/
def CommitmentHex (coind : CoinbaseCoind) (templ : CoinbaseTemplate) : Prop :=
  templ.hasSegwitTxs = true → HexText coind.commitment

/-- The commitment of a template that has one fits into its array. -/
def CommitmentFits (coind : CoinbaseCoind) (templ : CoinbaseTemplate) :
    Prop :=
  templ.hasSegwitTxs = true → coind.commitment.length < 110

/-- The outputs for the commitment of a template. -/
structure Commits (coind : CoinbaseCoind) (templ : CoinbaseTemplate)
    (commitment : List TxOut) : Prop where
  length : commitment.length + 1 = npayeesOf templ
  outs : (∀ out ∈ commitment, out.Exact) ↔ CommitmentHex coind templ

/-- A short commitment is exact when it is hexadecimal. -/
theorem exact_commitmentOut_iff {coind : CoinbaseCoind}
    (short : coind.commitment.length < 110) :
    (commitmentOut coind).Exact ↔ HexText coind.commitment := by
  constructor
  · exact fun exactOut => exactOut.script
  · intro hex
    exact
      { value := (by decide : HexText "0000000000000000".toList)
        length_value := rfl
        script := hex
        short := short.trans (by decide)
        scriptLength := rfl }

/-- The commitment has room when it is short. -/
theorem commitmentOut_fits_iff (coind : CoinbaseCoind) :
    (commitmentOut coind).text.length < 128 ↔
      coind.commitment.length < 110 := by
  have digits := two_le_length_hex2 (coind.commitment.length / 2)
  have few : coind.commitment.length < 110 →
      (hex2 (coind.commitment.length / 2)).length = 2 := fun short =>
    length_hex2 (by omega)
  have length :
      (commitmentOut coind).text.length =
        16 + (hex2 (coind.commitment.length / 2)).length +
          coind.commitment.length := by
    rw [TxOut.text, List.length_append, List.length_append]
    rfl
  omega

/-- The commitment fits and is written, or nothing is. -/
theorem commitmentOf_cases (coind : CoinbaseCoind)
    (templ : CoinbaseTemplate) :
    (∃ commitment, commitmentOf coind templ = some commitment ∧
        CommitmentFits coind templ ∧ Commits coind templ commitment) ∨
      (commitmentOf coind templ = none ∧ ¬ CommitmentFits coind templ) := by
  rw [commitmentOf, CommitmentFits]
  by_cases segwit : templ.hasSegwitTxs = true
  · rw [if_pos segwit, sprintfInto, forall_prop_of_true segwit,
      ← commitmentOut_fits_iff]
    by_cases fits : (commitmentOut coind).text.length < 128
    · have short := (commitmentOut_fits_iff coind).mp fits
      rw [if_pos fits]
      refine Or.inl ⟨[commitmentOut coind], rfl, fits, ?_, ?_⟩
      · rw [npayeesOf, if_pos segwit]
        rfl
      · rw [List.forall_mem_singleton, exact_commitmentOut_iff short,
          CommitmentHex, forall_prop_of_true segwit]
    · rw [if_neg fits]
      exact Or.inr ⟨rfl, fits⟩
  · rw [if_neg segwit]
    refine Or.inl ⟨[], rfl, fun given => absurd given segwit, ?_, ?_⟩
    · rw [npayeesOf, if_neg segwit]
      rfl
    · exact iff_of_true (fun _ member => absurd member List.not_mem_nil)
        fun given => absurd given segwit

end YiimpStratum.Coinbase
