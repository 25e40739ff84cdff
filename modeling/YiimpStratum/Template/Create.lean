import Mathlib.Data.Int.Basic
import YiimpStratum.Template.Merkle

/-!
# Job templates

`coind_create_template` of `coind_template.cpp` when the server runs the
algorithm `equihash`: the daemon's answer to `getblocktemplate`, the job
template made from it and the loop over its transactions.

Buffers are unbounded here.  `coinbase_create` fills only the fields `coinb1`
and `coinb2`, which no Equihash header contains; it is a parameter.  Fields of
the template that the Equihash path only prints are left out, and so are the
coins with the encoding of Decred.
-/

namespace YiimpStratum.Template

open YiimpStratum.Util

/-! ## The answer of the daemon -/

/-- A string of a fixed number of digits. -/
structure HexDigits (count : Nat) where
  text : CString
  length_text : text.length = count

/-- An entry of `transactions`.  An empty `txid` counts as a missing one. -/
structure GbtTransaction where
  hash : HexDigits 64
  txid : Option (HexDigits 64)
  data : CString
  fee : Int

/-- The object `coinbasetxn`. -/
structure CoinbaseTxn where
  hash : HexDigits 64
  data : CString
  coinbasevalue : Int

/--
The result of `getblocktemplate`, with the members that are read.  The members
`bits` and `previousblockhash` are mandatory.
-/
structure GetBlockTemplate where
  version : Int
  curtime : Int
  height : Int
  coinbasevalue : Int
  bits : HexDigits 8
  previousblockhash : HexDigits 64
  target : HexDigits 64
  finalsaplingroothash : Option (HexDigits 64)
  stateroot : Option (HexDigits 64)
  utxoroot : Option (HexDigits 64)
  hasCoinbaseaux : Bool
  transactions : List GbtTransaction
  coinbasetxn : Option CoinbaseTxn
  defaultWitnessCommitment : Option CString

/-! ## Templates -/

/-- The fields of `YAAMP_COIND` that the Equihash path reads. -/
structure YaampCoind where
  id : Nat
  isaux : Bool

/-- The configuration `g_limit_txs_per_block` and `g_allow_rolltime`. -/
structure Config where
  limitTxsPerBlock : Int
  allowRolltime : Bool

/-- `YAAMP_JOB_TEMPLATE` -/
structure YaampJobTemplate where
  created : Int
  prevhashHex : CString
  prevhashBe : CString
  extradataHex : CString
  extradataBe : CString
  mrHex : CString
  txcount : Nat
  txsteps : List CString
  txdata : List CString
  version : CString
  nbits : CString
  ntime : CString
  height : Int
  value : Int
  coinb1 : CString
  coinb2 : CString
  coinbase : CString
  hasSegwitTxs : Bool
  hasFilteredTxs : Bool
  filteredTxsFee : Int

/-- The conversion to `int`. -/
def toInt32 (number : Int) : Int :=
  number.bmod (2 ^ 32)

theorem toInt32_lt (number : Int) : toInt32 number < 2 ^ 31 :=
  Int.bmod_lt (by decide : 0 < 2 ^ 32)

theorem toInt32_of_lt {number : Nat} (small : number < 2 ^ 31) :
    toInt32 number = number :=
  Int.bmod_eq_of_le (by omega) (by omega)

/-- The conversion `%08x` of an integer cast to `unsigned int`. -/
def hex8OfInt (number : Int) : CString :=
  hex8 (number % 2 ^ 32).toNat

/-- The string of an optional member, empty when it is missing. -/
def optionalText {count : Nat} : Option (HexDigits count) → CString
  | some digits => digits.text
  | none => []

/-! ## Transactions -/

/-- The variables of the loop over the transactions. -/
structure TxScan where
  txhashes : List CString
  txids : List CString
  txdata : List CString
  hasSegwitTxs : Bool
  hasFilteredTxs : Bool
  filteredTxsFee : Int

def TxScan.start : TxScan where
  txhashes := [[]]
  txids := [[]]
  txdata := []
  hasSegwitTxs := false
  hasFilteredTxs := false
  filteredTxsFee := 0

/-- The part of one iteration that handles the transaction id. -/
def TxScan.pushTxid (scan : TxScan) (hashBe : CString) :
    Option (HexDigits 64) → TxScan
  | some txid =>
      { scan with
        txids := scan.txids ++ [stringBe txid.text]
        hasSegwitTxs :=
          scan.hasSegwitTxs || hashBe != stringBe txid.text }
  | none => { scan with hasSegwitTxs := false }

/-- One iteration of the loop over the transactions. -/
def scanTransaction
    (limit : Int) (scan : TxScan) (entry : GbtTransaction × Nat) : TxScan :=
  let (transaction, i) := entry
  if scan.hasFilteredTxs then
    { scan with
      filteredTxsFee := toInt32 (scan.filteredTxsFee + transaction.fee) }
  else
    let hashBe := stringBe transaction.hash.text
    let scan := { scan with txhashes := scan.txhashes ++ [hashBe] }
    let scan := scan.pushTxid hashBe transaction.txid
    { scan with
      txdata := scan.txdata ++ [transaction.data]
      hasFilteredTxs := decide (limit ≠ 0 ∧ limit - 2 ≤ i) }

def scanTransactions
    (limit : Int) (transactions : List GbtTransaction) : TxScan :=
  transactions.zipIdx.foldl (scanTransaction limit) TxScan.start

/-! ## The template -/

/-- The loop that swaps the two characters of every pair. -/
def swapPairs : CString → CString
  | [] => []
  | [single] => [single]
  | first :: second :: rest => second :: first :: swapPairs rest

/-- The fields set before the transactions are read. -/
def templateHeader (now : Int) (gbt : GetBlockTemplate) :
    YaampJobTemplate :=
  let extradataHex := optionalText gbt.finalsaplingroothash
  let templ : YaampJobTemplate :=
    { created := now
      prevhashHex := gbt.previousblockhash.text
      prevhashBe := []
      extradataHex := extradataHex
      extradataBe := stringBe extradataHex
      mrHex := []
      txcount := 0
      txsteps := []
      txdata := []
      version := hex8OfInt gbt.version
      nbits := gbt.bits.text
      ntime := hex8OfInt gbt.curtime
      height := toInt32 gbt.height
      value := gbt.coinbasevalue
      coinb1 := []
      coinb2 := []
      coinbase := []
      hasSegwitTxs := false
      hasFilteredTxs := false
      filteredTxsFee := 0 }
  match gbt.stateroot, gbt.utxoroot with
  | some scRoot, some scUtxo =>
      { templ with
        extradataHex := scRoot.text ++ scUtxo.text
        extradataBe :=
          serStringBe2 scRoot.text 8 ++ serStringBe2 scUtxo.text 8 }
  | _, _ => templ

section Definitions

variable (sha256Double : Sha256Double)

/-- `mr_hex`, from the vector `txhashes` and the hash of the coinbase. -/
def merkleRootHex (txhashes : List CString) (coinbaseHash : CString) :
    CString :=
  let txsteps := merkleSteps sha256Double txhashes
  if 0 < txsteps.length then
    (swapPairs
      (merkleWithFirst sha256Double txsteps (stringBe coinbaseHash))).reverse
  else
    coinbaseHash

/-- The vector from which the submission path computes the merkle root. -/
def TxScan.merkleLeaves (scan : TxScan) : List CString :=
  if scan.hasSegwitTxs then scan.txids else scan.txhashes

/-- The rest of the template, once the coinbase transaction is known. -/
def templateBody
    (templ : YaampJobTemplate) (gbt : GetBlockTemplate) (scan : TxScan)
    (coinbasetxn : CoinbaseTxn) : YaampJobTemplate :=
  { templ with
    value :=
      if scan.hasFilteredTxs then
        coinbasetxn.coinbasevalue - scan.filteredTxsFee
      else
        coinbasetxn.coinbasevalue
    coinbase := coinbasetxn.data
    mrHex := merkleRootHex sha256Double scan.txhashes coinbasetxn.hash.text
    txcount := scan.merkleLeaves.length
    txsteps := merkleSteps sha256Double scan.merkleLeaves
    txdata := scan.txdata
    hasSegwitTxs :=
      scan.hasSegwitTxs && gbt.defaultWitnessCommitment.isSome
    hasFilteredTxs := scan.hasFilteredTxs
    filteredTxsFee := scan.filteredTxsFee
    prevhashBe := stringBe templ.prevhashHex }

/-- `coind_create_template` on the result of `getblocktemplate`. -/
def coindCreateTemplate
    (coinbaseCreate : YaampJobTemplate → CString × CString)
    (config : Config) (coind : YaampCoind) (now : Int)
    (gbt : GetBlockTemplate) : Option YaampJobTemplate :=
  if !gbt.hasCoinbaseaux && coind.isaux then
    none
  else if coind.isaux then
    some (templateHeader now gbt)
  else
    match gbt.coinbasetxn with
    | none => none
    | some coinbasetxn =>
        if coinbasetxn.data.length + 1 < 16 * 1024 then
          let scan :=
            scanTransactions config.limitTxsPerBlock gbt.transactions
          let templ :=
            templateBody sha256Double (templateHeader now gbt) gbt scan
              coinbasetxn
          let coinb := coinbaseCreate templ
          some { templ with coinb1 := coinb.1, coinb2 := coinb.2 }
        else
          none

end Definitions

/-! ## What a template contains -/

section Header

variable {gbt : GetBlockTemplate} {now : Int}

@[simp]
theorem templateHeader_ntime_length :
    (templateHeader now gbt).ntime.length = 8 := by
  rw [templateHeader]
  split <;> exact length_hex8 _

theorem length_optionalText {count : Nat} (digits : Option (HexDigits count)) :
    (optionalText digits).length = 0 ∨
      (optionalText digits).length = count := by
  cases digits with
  | none =>
      exact Or.inl rfl
  | some digits =>
      exact Or.inr digits.length_text

/-- The reserved field has 128 digits only with both root hashes. -/
theorem templateHeader_extradataHex_length_iff :
    (templateHeader now gbt).extradataHex.length = 128 ↔
      gbt.stateroot.isSome ∧ gbt.utxoroot.isSome := by
  have plain := length_optionalText gbt.finalsaplingroothash
  rw [templateHeader]
  split
  · rename_i scRoot scUtxo foundRoot foundUtxo
    simp [foundRoot, foundUtxo, scRoot.length_text, scUtxo.length_text]
  · rename_i notBoth
    have short :
        (optionalText gbt.finalsaplingroothash).length ≠ 128 := by
      omega
    constructor
    · intro long
      exact absurd long short
    · rintro ⟨someRoot, someUtxo⟩
      obtain ⟨scRoot, foundRoot⟩ := Option.isSome_iff_exists.mp someRoot
      obtain ⟨scUtxo, foundUtxo⟩ := Option.isSome_iff_exists.mp someUtxo
      exact absurd foundUtxo (notBoth scRoot scUtxo foundRoot)

theorem templateHeader_prevhashHex :
    (templateHeader now gbt).prevhashHex = gbt.previousblockhash.text := by
  rw [templateHeader]
  split <;> rfl

theorem templateHeader_aux (now : Int) (gbt : GetBlockTemplate) :
    (templateHeader now gbt).prevhashBe = [] ∧
      (templateHeader now gbt).mrHex = [] ∧
        (templateHeader now gbt).txsteps = [] ∧
          (templateHeader now gbt).coinbase = [] := by
  rw [templateHeader]
  split <;> exact ⟨rfl, rfl, rfl, rfl⟩

end Header

section Results

variable {sha256Double : Sha256Double}

/-- Swapping every pair and reversing the string reverses the bytes. -/
theorem reverse_swapPairs
    (s : CString) (even : s.length % 2 = 0) :
    (swapPairs s).reverse = stringBe s := by
  induction s using swapPairs.induct with
  | case1 =>
      rfl
  | case2 single =>
      simp at even
  | case3 first second rest ih =>
      have restEven : rest.length % 2 = 0 := by
        simp only [List.length_cons] at even
        omega
      rw [swapPairs, List.reverse_cons, List.reverse_cons, ih restEven,
        stringBe]
      simp

/-- Announced again in reverse, `mr_hex` is the fold over `txhashes`. -/
theorem stringBe_merkleRootHex
    (txhashes : List CString) (coinbaseHash : CString)
    (digits : coinbaseHash.length = 64) :
    stringBe (merkleRootHex sha256Double txhashes coinbaseHash) =
      merkleWithFirst sha256Double (merkleSteps sha256Double txhashes)
        (stringBe coinbaseHash) := by
  have reversed : (stringBe coinbaseHash).length = 64 := by
    rw [length_stringBe, digits]
  rw [merkleRootHex]
  split
  · have root :=
      length_merkleWithFirst sha256Double
        (merkleSteps sha256Double txhashes) (stringBe coinbaseHash) reversed
    rw [reverse_swapPairs _ (by rw [root]), stringBe_stringBe _ (by rw [root])]
  · rename_i noSteps
    have empty : merkleSteps sha256Double txhashes = [] :=
      List.length_eq_zero_iff.mp (by omega)
    rw [empty]
    rfl

variable {coinbaseCreate : YaampJobTemplate → CString × CString}
variable {config : Config} {coind : YaampCoind} {now : Int}
variable {gbt : GetBlockTemplate} {templ : YaampJobTemplate}

/-- The two ways in which a template is created. -/
theorem coindCreateTemplate_cases
    (created :
      coindCreateTemplate sha256Double coinbaseCreate config coind now gbt =
        some templ) :
    (coind.isaux = true ∧ templ = templateHeader now gbt) ∨
      coind.isaux = false ∧
        ∃ coinbasetxn coinb1 coinb2,
          gbt.coinbasetxn = some coinbasetxn ∧
            coinbasetxn.data.length + 1 < 16 * 1024 ∧
              templ =
                { templateBody sha256Double (templateHeader now gbt) gbt
                    (scanTransactions config.limitTxsPerBlock
                      gbt.transactions)
                    coinbasetxn with
                  coinb1 := coinb1
                  coinb2 := coinb2 } := by
  rw [coindCreateTemplate] at created
  split at created
  · exact absurd created (by simp)
  · split at created
    · rename_i aux
      exact Or.inl ⟨aux, (Option.some.inj created).symm⟩
    · rename_i notAux
      cases found : gbt.coinbasetxn with
      | none =>
          simp [found] at created
      | some coinbasetxn =>
          simp only [found] at created
          split at created
          · rename_i fits
            exact Or.inr ⟨by simpa using notAux, coinbasetxn, _, _, rfl,
              fits, (Option.some.inj created).symm⟩
          · exact absurd created (by simp)

/-- An ordinary coin gets a template when its coinbase fits. -/
theorem coindCreateTemplate_exists
    {coinbasetxn : CoinbaseTxn}
    (notAux : coind.isaux = false)
    (found : gbt.coinbasetxn = some coinbasetxn)
    (fits : coinbasetxn.data.length + 1 < 16 * 1024) :
    ∃ templ,
      coindCreateTemplate sha256Double coinbaseCreate config coind now gbt =
        some templ := by
  rw [coindCreateTemplate, if_neg (by simp [notAux]),
    if_neg (by simp [notAux])]
  simp only [found, if_pos fits]
  exact ⟨_, rfl⟩

end Results

end YiimpStratum.Template
