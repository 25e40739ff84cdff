import YiimpStratum.Coinbase.Cases
import YiimpStratum.Library.Transaction

/-!
# The coinbase is a transaction

With any eight bytes of extranonce between them the two halves that
`coinbase_create` writes are one transaction with nothing left over, exactly
when every address it packs is decoded, the keys of the coin have the lengths
that are written in front of them, the texts fit into their arrays and no case
returns before the outputs.
-/

namespace YiimpStratum.Coinbase

open YiimpStratum.Util
open YiimpStratum.Template
open YiimpStratum.Submit
open YiimpStratum.Merged

/-! ## Exact coinbases -/

/-- The length byte of the input is that of the script around eight bytes. -/
structure CoinbaseTexts.ScriptExact (coinbase : CoinbaseTexts) : Prop where
  script1 : HexText coinbase.script1
  script2 : HexText coinbase.script2
  short :
    coinbase.script1.length + 16 + coinbase.script2.length < 2 * 253
  scriptLength :
    coinbase.scriptLength =
      hex2 ((coinbase.script1.length + 16 + coinbase.script2.length) / 2)

/-- The text of the transaction for an extranonce. -/
def CoinbaseTexts.text (coinbase : CoinbaseTexts)
    (extranonce : List UInt8) : CString :=
  coinbase.coinb1 ++ hexlify extranonce ++ coinbase.coinb2

/--
The text is read completely, as a transaction with one input and with the
scripts that were written as outputs.
-/
def CoinbaseTexts.Parses (coinbase : CoinbaseTexts) (timed : Bool)
    (extranonce : List UInt8) : Prop :=
  ∃ transaction,
    (decodeHex (coinbase.text extranonce)).bind (Transaction.parse timed) =
        some transaction ∧
      transaction.inputs.length = 1 ∧
        transaction.outputs.map (fun output => some output.script) =
          coinbase.body.outputs.map fun out => decodeHex out.script

/--
The coinbase is written, its lengths and its count are those of what follows
them, and it is read completely whatever the extranonce is.
-/
def WritesTransaction (timed : Bool) (created : Option CoinbaseTexts) :
    Prop :=
  ∃ coinbase ∈ created,
    coinbase.ScriptExact ∧ coinbase.body.Exact ∧
      ∀ extranonce : List UInt8, extranonce.length = 8 →
        coinbase.Parses timed extranonce

/-! ## The bytes of the texts -/

/-- Whole bytes of a fixed number are a field. -/
theorem exists_littleEndian (width : Nat) {text : CString}
    (hex : HexText text) (length : text.length = 2 * width) :
    ∃ number < 256 ^ width,
      decodeHex text = some (CompactSize.littleEndian width number) := by
  obtain ⟨bytes, decoded, digits⟩ := exists_decodeHex hex
  have count : bytes.length = width := by omega
  have reversed : bytes.reverse.length = width := by
    rw [List.length_reverse, count]
  refine ⟨BigEndian.value bytes.reverse, ?_, ?_⟩
  · have below := BigEndian.value_lt bytes.reverse
    rwa [reversed] at below
  · rw [decoded, CompactSize.littleEndian_value count]

theorem decodeHex_hex2 {count : Nat} (few : count < 253) :
    decodeHex (hex2 count) = some (CompactSize.encode count) := by
  have single := decodeHex_hexlify [UInt8.ofNat count]
  rw [hexlify, List.flatMap_singleton] at single
  rw [hex2_of_lt (by omega), single, CompactSize.encode, if_pos few]

/-- An exact output is a serialized output. -/
theorem TxOut.Exact.exists_output {out : TxOut} (exactOut : out.Exact) :
    ∃ output : Transaction.Output, output.Fits ∧
      decodeHex out.text = some output.serialize ∧
        decodeHex out.script = some output.script := by
  obtain ⟨value, small, decodedValue⟩ :=
    exists_littleEndian 8 exactOut.value exactOut.length_value
  obtain ⟨script, decoded, digits⟩ := exists_decodeHex exactOut.script
  have short := exactOut.short
  have length : out.script.length / 2 = script.length := by omega
  have prefixed := decodeHex_append
    (decodeHex_hex2 (by omega : script.length < 253)) decoded
  rw [← length, ← exactOut.scriptLength] at prefixed
  refine ⟨⟨value, script⟩, ⟨small, ?_⟩, ?_, decoded⟩
  · exact (by omega : script.length < 2 ^ 64)
  · rw [TxOut.text, List.append_assoc,
      decodeHex_append decodedValue prefixed, length]
    rfl

theorem exists_outputs {outs : List TxOut}
    (exactOuts : ∀ out ∈ outs, out.Exact) :
    ∃ outputs : List Transaction.Output,
      (∀ output ∈ outputs, output.Fits) ∧
        decodeHex (outs.flatMap TxOut.text) =
            some (outputs.flatMap Transaction.Output.serialize) ∧
          outputs.map (fun output => some output.script) =
            outs.map fun out => decodeHex out.script := by
  induction outs with
  | nil =>
      exact ⟨[], fun _ member => absurd member List.not_mem_nil, rfl, rfl⟩
  | cons out outs ih =>
      obtain ⟨outputs, fits, decoded, scripts⟩ :=
        ih fun other member => exactOuts other (List.mem_cons_of_mem _ member)
      obtain ⟨output, fit, first, script⟩ :=
        (exactOuts out List.mem_cons_self).exists_output
      refine ⟨output :: outputs, ?_, ?_, ?_⟩
      · rw [List.forall_mem_cons]
        exact ⟨fit, fits⟩
      · rw [List.flatMap_cons, List.flatMap_cons]
        exact decodeHex_append first decoded
      · rw [List.map_cons, List.map_cons, scripts, script]

/-- The texts in front of the input that do not depend on the template. -/
structure CoinbaseTexts.Framed (coinbase : CoinbaseTexts) (timed : Bool) :
    Prop where
  version : HexText coinbase.eversion1
  length_version : coinbase.eversion1.length = 8
  time : HexText coinbase.entime
  length_time : coinbase.entime.length = if timed then 8 else 0

/-- The time field of the coinbase. -/
theorem CoinbaseTexts.Framed.exists_time {coinbase : CoinbaseTexts}
    {timed : Bool} (framed : coinbase.Framed timed) :
    ∃ time : Option Nat, time.isSome = timed ∧
      (∀ number ∈ time, number < 2 ^ 32) ∧
        decodeHex coinbase.entime = some (Transaction.serializeTime time) := by
  have length := framed.length_time
  cases timed with
  | true =>
      obtain ⟨number, small, decoded⟩ :=
        exists_littleEndian 4 framed.time length
      refine ⟨some number, rfl, ?_, decoded⟩
      rintro _ ⟨⟩
      exact small
  | false =>
      have empty : coinbase.entime = [] := List.length_eq_zero_iff.mp length
      refine ⟨none, rfl, ?_, ?_⟩
      · rintro _ ⟨⟩
      · rw [empty]
        rfl

/-- The hash and the index in the input of a coinbase. -/
def nullPrevious : List UInt8 :=
  List.replicate 32 0 ++ List.replicate 4 255

/-- A coinbase with exact lengths is read completely. -/
theorem CoinbaseTexts.parses {coinbase : CoinbaseTexts} {timed : Bool}
    (framed : coinbase.Framed timed) (exactScript : coinbase.ScriptExact)
    (exactBody : coinbase.body.Exact) {extranonce : List UInt8}
    (eight : extranonce.length = 8) : coinbase.Parses timed extranonce := by
  obtain ⟨version, versionSmall, versionBytes⟩ :=
    exists_littleEndian 4 framed.version framed.length_version
  obtain ⟨time, timedTime, timeSmall, timeBytes⟩ := framed.exists_time
  obtain ⟨front, frontBytes, frontLength⟩ :=
    exists_decodeHex exactScript.script1
  obtain ⟨back, backBytes, backLength⟩ :=
    exists_decodeHex exactScript.script2
  obtain ⟨outputs, outputsFit, outputsBytes, scripts⟩ :=
    exists_outputs exactBody.outputs
  obtain ⟨lockTime, lockTimeSmall, lockTimeBytes⟩ :=
    exists_littleEndian 4 exactBody.locktime exactBody.length_locktime
  have counts : outputs.length = coinbase.body.outputs.length := by
    have lengths := congrArg List.length scripts
    rwa [List.length_map, List.length_map] at lengths
  have few := exactBody.few
  have short := exactScript.short
  have scriptLength :
      (coinbase.script1.length + 16 + coinbase.script2.length) / 2 =
        (front ++ extranonce ++ back).length := by
    rw [List.length_append, List.length_append]
    omega
  have scriptBytes := decodeHex_hex2
    (by rw [← scriptLength]; omega :
      (front ++ extranonce ++ back).length < 253)
  rw [← scriptLength, ← exactScript.scriptLength] at scriptBytes
  have countBytes := decodeHex_hex2 few
  rw [← exactBody.count] at countBytes
  have previousBytes :
      decodeHex (List.replicate 64 '0' ++ "ffffffff".toList) =
        some nullPrevious := by
    decide
  have singleBytes : decodeHex "01".toList = some (CompactSize.encode 1) := by
    decide
  have sequenceBytes :
      decodeHex "00000000".toList = some (CompactSize.littleEndian 4 0) := by
    decide
  have decoded :=
    decodeHex_append versionBytes <| decodeHex_append timeBytes <|
      decodeHex_append singleBytes <| decodeHex_append previousBytes <|
        decodeHex_append scriptBytes <| decodeHex_append frontBytes <|
          decodeHex_append (decodeHex_hexlify extranonce) <|
            decodeHex_append backBytes <| decodeHex_append sequenceBytes <|
              decodeHex_append countBytes <|
                decodeHex_append outputsBytes lockTimeBytes
  let transaction : Transaction :=
    { version := version
      time := time
      inputs := [⟨nullPrevious, front ++ extranonce ++ back, 0⟩]
      outputs := outputs
      lockTime := lockTime }
  have fits : transaction.Fits :=
    { version := versionSmall
      time := timeSmall
      inputs := by
        rw [List.forall_mem_singleton]
        refine ⟨rfl, ?_, Nat.two_pow_pos 32⟩
        change (front ++ extranonce ++ back).length < 2 ^ 64
        omega
      inputCount := Nat.one_lt_two_pow (by decide)
      outputs := outputsFit
      outputCount := by
        change outputs.length < 2 ^ 64
        omega
      lockTime := lockTimeSmall }
  have text :
      decodeHex (coinbase.text extranonce) = some transaction.serialize := by
    have serialized : transaction.serialize =
        CompactSize.littleEndian 4 version ++
          (Transaction.serializeTime time ++
            (CompactSize.encode 1 ++
              (nullPrevious ++
                (CompactSize.encode (front ++ extranonce ++ back).length ++
                  (front ++ (extranonce ++ (back ++
                    (CompactSize.littleEndian 4 0 ++
                      (CompactSize.encode
                          coinbase.body.outputs.length ++
                        (outputs.flatMap Transaction.Output.serialize ++
                          CompactSize.littleEndian 4 lockTime)))))))))) := by
      simp only [transaction, Transaction.serialize,
        Transaction.Input.serialize, Transaction.serializeScript,
        List.flatMap_singleton, List.append_assoc, counts,
        List.length_singleton]
    rw [serialized, ← scriptLength, ← decoded, CoinbaseTexts.text,
      CoinbaseTexts.coinb1, CoinbaseTexts.coinb2, Body.text]
    simp only [List.append_assoc]
  have parsed := Transaction.parse_serialize fits
  refine ⟨transaction, ?_, rfl, scripts⟩
  rw [text, Option.bind_some, ← parsed, ← timedTime]

/-! ## The input -/

theorem length_serBytes_le (count : Nat) {n : Int}
    (small : n < 128 * 256 ^ count) : (serBytes n).length ≤ count + 1 := by
  induction count generalizing n with
  | zero =>
      rw [serBytes, if_neg (by omega)]
      exact le_refl 1
  | succ count ih =>
      rw [serBytes]
      split
      · have quotient : n / 256 < 128 * 256 ^ count := by
          rw [pow_succ] at small
          omega
        rw [List.length_cons]
        exact Nat.succ_le_succ (ih quotient)
      · exact Nat.le_add_left 1 _

theorem length_serBytes_le_four {n : Int} (small : n < 2 ^ 31) :
    (serBytes n).length ≤ 4 :=
  length_serBytes_le 3 (by omega : n < 128 * 256 ^ 3)

/-- An `int` takes at most five bytes. -/
theorem length_serNumber_le {n : Int} (small : n < 2 ^ 31) :
    (serNumber n).length ≤ 10 := by
  have bytes := length_serBytes_le_four small
  rw [serNumber, length_hexlify, List.length_cons]
  omega

theorem length_script1Of_le (templ : CoinbaseTemplate) (now : Int) :
    (script1Of templ now).length ≤ 85 := by
  have height := length_serNumber_le templ.height_lt
  have time := length_serNumber_le (toInt32_lt now)
  have flags := templ.flags_fits
  rw [script1Of, List.length_append, List.length_append,
    List.length_append]
  change _ + _ + (_ + 2) ≤ 85
  omega

theorem hexText_script1Of_iff (templ : CoinbaseTemplate) (now : Int) :
    HexText (script1Of templ now) ↔ HexText templ.flags :=
  hexText_middle_iff (hexText_hexlify _)
    ((hexText_hexlify _).append (by decide : HexText "08".toList)) _

/-- With the fixed `script2` the script is exact when the flags are bytes. -/
theorem scriptExact_iff (coind : CoinbaseCoind) (templ : CoinbaseTemplate)
    (now : Int) (written : CoinbaseCoind × Body) :
    (coinbaseTexts coind templ now "7969696d7000".toList
          written).ScriptExact ↔
      HexText templ.flags := by
  rw [← hexText_script1Of_iff templ now]
  constructor
  · exact fun exactScript => exactScript.script1
  · intro hex
    have short := length_script1Of_le templ now
    have even := hex.1
    refine ⟨hex, (by decide : HexText "7969696d7000".toList), ?_, ?_⟩
    · change (script1Of templ now).length + 16 + 12 < 2 * 253
      omega
    · change hex2 ((script1Of templ now).length / 2 + 6 + 8) =
        hex2 (((script1Of templ now).length + 16 + 12) / 2)
      congr 1
      omega

theorem framed (coind : CoinbaseCoind) (templ : CoinbaseTemplate) (now : Int)
    (script2 : CString) (written : CoinbaseCoind × Body) :
    (coinbaseTexts coind templ now script2 written).Framed coind.pos := by
  have version :
      HexText (if coind.txmessage then "02000000".toList
          else "01000000".toList) ∧
        (if coind.txmessage then "02000000".toList
          else "01000000".toList).length = 8 := by
    split <;> decide
  have whole : templ.ntime.take 8 = templ.ntime :=
    List.take_of_length_le templ.length_ntime.le
  have time : serStringBe templ.ntime 1 = stringBe templ.ntime :=
    (List.append_nil _).trans (congrArg stringBe whole)
  refine ⟨version.1, version.2, ?_, ?_⟩
  · change HexText (if coind.pos then serStringBe templ.ntime 1 else [])
    split
    · rw [time]
      exact hexText_stringBe templ.hex_ntime
    · exact hexText_nil
  · change (if coind.pos then serStringBe templ.ntime 1 else []).length = _
    split
    · rw [time, length_stringBe, templ.length_ntime]
    · rfl

theorem exists_mem_bind_iff {α β : Type} {value : Option α}
    {next : α → Option β} {p : β → Prop} :
    (∃ result ∈ value.bind next, p result) ↔
      ∃ first ∈ value, ∃ result ∈ next first, p result := by
  constructor
  · rintro ⟨result, member, holds⟩
    obtain ⟨first, found, rest⟩ := Option.bind_eq_some_iff.mp member
    exact ⟨first, found, result, rest, holds⟩
  · rintro ⟨first, found, result, rest, holds⟩
    exact ⟨result, Option.bind_eq_some_iff.mpr ⟨first, found, rest⟩, holds⟩

/-- A coinbase is right when its flags are bytes and its case writes. -/
theorem writesTransaction_texts_iff (coind : CoinbaseCoind)
    (templ : CoinbaseTemplate) (now : Int)
    (written : Option (CoinbaseCoind × Body)) :
    WritesTransaction coind.pos
        (written.bind fun result =>
          some
            (coinbaseTexts coind templ now "7969696d7000".toList result)) ↔
      HexText templ.flags ∧ Writes written := by
  rw [WritesTransaction, exists_mem_bind_iff]
  constructor
  · rintro ⟨result, found, _, ⟨⟩, exactScript, exactBody, -⟩
    exact ⟨(scriptExact_iff coind templ now result).mp exactScript, result,
      found, exactBody⟩
  · rintro ⟨flags, result, found, exactBody⟩
    have exactScript := (scriptExact_iff coind templ now result).mpr flags
    exact ⟨result, found, _, rfl, exactScript, exactBody,
      fun extranonce eight =>
        CoinbaseTexts.parses (framed coind templ now _ result) exactScript
          exactBody eight⟩

/-- A text with `fabe6d6d` and the zeros is longer than `script2`. -/
theorem sprintfInto_aux (root count : CString) :
    sprintfInto 32
        ("7969696d7000".toList ++
          ("fabe6d6d".toList ++ root ++ count ++
            "00000000000000".toList)) =
      none := by
  have lengths :
      "7969696d7000".toList.length = 12 ∧ "fabe6d6d".toList.length = 8 ∧
        "00000000000000".toList.length = 14 :=
    ⟨rfl, rfl, rfl⟩
  refine if_neg ?_
  rw [List.length_append, List.length_append, List.length_append,
    List.length_append, lengths.1, lengths.2.1, lengths.2.2]
  omega

/-- The text of `coinbase_aux` overruns the array `script2`. -/
theorem script2Of_merged (sha256Double : Sha256Double)
    (records : List CoindAux) {coind : CoinbaseCoind}
    {templ : CoinbaseTemplate}
    (merged : ¬ coind.pos ∧ ¬ coind.isaux ∧ templ.auxs ≠ []) :
    script2Of sha256Double records coind templ = none := by
  rw [script2Of, if_pos merged]
  exact sprintfInto_aux _ _

/-! ## The theorem -/

/-- What `coinbase_create` needs from the coin and from the daemon. -/
structure CoinbaseFits (coind : CoinbaseCoind) (templ : CoinbaseTemplate)
    (answer : CoinbaseAnswer) : Prop where
  alone : ¬ (¬ coind.pos ∧ ¬ coind.isaux ∧ templ.auxs ≠ [])
  flags : HexText templ.flags
  room : CommitmentFits coind templ
  commitment :
    (branchOf (prepare coind templ answer).1 answer).commits = true →
      CommitmentHex coind templ
  miner : MinerFits (prepare coind templ answer).1
  payees :
    PayeesFit (prepare coind templ answer).1 answer
      (prepare coind templ answer).2
      (branchOf (prepare coind templ answer).1 answer)

/-- The two halves are a transaction exactly for a coin that fits. -/
theorem writesTransaction_iff (sha256Double : Sha256Double)
    (records : List CoindAux) (coind : CoinbaseCoind)
    (templ : CoinbaseTemplate) (answer : CoinbaseAnswer) (now : Int) :
    WritesTransaction coind.pos
        (coinbaseCreate sha256Double records coind templ answer now) ↔
      CoinbaseFits coind templ answer := by
  by_cases merged : ¬ coind.pos ∧ ¬ coind.isaux ∧ templ.auxs ≠ []
  · rw [coinbaseCreate, script2Of_merged sha256Double records merged]
    refine iff_of_false ?_ fun fits => fits.alone merged
    rintro ⟨_, ⟨⟩, -⟩
  · rw [coinbaseCreate, script2Of, if_neg merged, coinbaseBody]
    rcases commitmentOf_cases coind templ with
      ⟨commitment, found, room, commits⟩ | ⟨missing, full⟩
    · have cases :=
        @writes_bodyOf_iff coind templ answer commitment commits
          (prepare coind templ answer).1 (prepare coind templ answer).2
          (branchOf (prepare coind templ answer).1 answer)
      simp only [found, Option.bind_eq_bind, Option.bind_some]
      rw [writesTransaction_texts_iff, cases]
      constructor
      · rintro ⟨flags, hex, miner, payees⟩
        exact ⟨merged, flags, room, hex, miner, payees⟩
      · intro fits
        exact ⟨fits.flags, fits.commitment, fits.miner, fits.payees⟩
    · rw [missing]
      refine iff_of_false ?_ fun fits => full fits.room
      rintro ⟨_, ⟨⟩, -⟩

/-! ## An address in another encoding -/

/-- A coin with masternodes. -/
def masternodeCoin : CoinbaseCoind where
  symbol := "DASH".toList
  rpcencoding := "POW".toList
  pubkey := []
  scriptPubkey := List.replicate 40 '5'
  p2shAddress := false
  pos := false
  txmessage := false
  isaux := false
  charityAddress := []
  charityAmount := 0
  charityPercent := 0
  rewardMul := 1
  hasmasternodes := true
  oldmasternodes := false
  commitment := []

def shortTemplate : CoinbaseTemplate where
  height := 100
  flags := []
  ntime := "5f5e1000".toList
  value := 500000000
  hasSegwitTxs := false
  auxs := []
  height_lt := by decide
  flags_fits := by decide
  length_ntime := rfl
  hex_ntime := by decide

/-- The answer of a daemon whose masternode is paid to a bech32 address. -/
def bech32Answer : CoinbaseAnswer where
  superblocksEnabled := false
  superblock := none
  screfund := none
  dynode := none
  dynodePayments := false
  dynodePaymentsEnforced := false
  dynodePaymentsStarted := false
  masternode :=
    some ⟨some "bc1qw508d6qejxtdg4y5r3zarvary0c5xw7kv8f3t4".toList, 225000000⟩
  masternodePayments := true
  masternodePaymentsEnforced := true
  masternodePaymentsStarted := true
  goldminenode := none
  goldminenodePaymentsEnforced := false
  eternitynode := none
  eternitynodePaymentsEnforced := false
  founder := none
  founderPaymentsStarted := false
  incentive := none
  payee := none
  payeeAmount := 0
  amount := 0
  donationPayee := none
  donationAmount := 0
  enforceMasternodePayments := false
  enforceSystemnodePayments := false
  masternodes := false
  systemnodes := false
  payeeSN := none
  payeeSNAmount := 0

/-- The output of the masternode has no key behind its length byte. -/
def bech32Body : Body :=
  Body.written "02".toList
    [⟨encodeTxValue 225000000, "19".toList, "76a91488ac".toList⟩,
      keyOut 275000000 (List.replicate 40 '5')]

theorem coinbaseCreate_bech32 (sha256Double : Sha256Double) (now : Int) :
    coinbaseCreate sha256Double [] masternodeCoin shortTemplate
        bech32Answer now =
      some
        (coinbaseTexts masternodeCoin shortTemplate now
          "7969696d7000".toList (masternodeCoin, bech32Body)) := by
  rfl

theorem script1Of_shortTemplate :
    script1Of shortTemplate 0 = "0164010008".toList := by
  have height : serBytes shortTemplate.height = [100] := by
    rw [serBytes]
    rfl
  have time : serBytes (toInt32 0) = [0] := by
    rw [serBytes]
    rfl
  rw [script1Of, serNumber, serNumber, height, time]
  rfl

theorem not_writesTransaction_bech32 :
    ¬ WritesTransaction masternodeCoin.pos
      (coinbaseCreate (fun _ => Vector.replicate 32 0) [] masternodeCoin
        shortTemplate bech32Answer 0) := by
  rw [coinbaseCreate_bech32]
  rintro ⟨_, ⟨⟩, -, -, parses⟩
  obtain ⟨transaction, parsed, -⟩ :=
    parses (List.replicate 8 0) List.length_replicate
  have unreadable :
      (decodeHex
          ((coinbaseTexts masternodeCoin shortTemplate 0
            "7969696d7000".toList (masternodeCoin, bech32Body)).text
              (List.replicate 8 0))).bind
          (Transaction.parse masternodeCoin.pos) =
        none := by
    rw [CoinbaseTexts.text, CoinbaseTexts.coinb1, coinbaseTexts]
    simp only [script1Of_shortTemplate]
    decide +kernel
  rw [unreadable] at parsed
  exact absurd parsed (by simp)

end YiimpStratum.Coinbase
