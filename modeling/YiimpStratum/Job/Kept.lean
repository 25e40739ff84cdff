import YiimpStratum.Coinbase.Parse
import YiimpStratum.Submit.Decred
import YiimpStratum.Submit.Handler
import YiimpStratum.Template.Filter

/-!
# Jobs that are kept

`coind_create_job` builds a template and throws it away again when it repeats
the template of the job: when this is younger than 45 seconds and the heights,
the counts of the transactions and the second halves of the coinbases are the
same.

A coin with `usegetwork` and the encoding `DCR` is asked for `getwork`, one
with `usememorypool` for `getmemorypool`, and every other one for
`getblocktemplate`.  The coinbase of the latter is the one of
`coinbase_create`.  Where a text overruns its array, as `script2` does for
every parent of merged mining, the two halves are whatever is left of them.
The flags are only read for an auxiliary coin without `coinbaseaux`, which has
no template, and are empty.
-/

namespace YiimpStratum.Kept

open YiimpStratum
open YiimpStratum.Util
open YiimpStratum.Template
open YiimpStratum.Coinbase
open YiimpStratum.Merged
open YiimpStratum.Decred (BlockHeader numberBytes)
open YiimpStratum.Submit (YaampJob sameTemplate digitsOf)

/-! ## Calls -/

/-- An answer to `getblocktemplate`, with the member `header` of Decred. -/
structure TemplateAnswer where
  gbt : GetBlockTemplate
  coinbase : CoinbaseAnswer
  header : Option BlockHeader

/-- An answer to `getmemorypool`, and `blocks` of the `getmininginfo` after. -/
structure MemoryPool where
  coinbasevalue : Int
  version : Int
  time : Int
  bits : CString
  previousblockhash : CString
  blocks : Int

/-- What the daemon of a coin answers. -/
inductive Reply where
  | getblocktemplate (answer : TemplateAnswer)
  | getwork (header : BlockHeader)
  | getmemorypool (answer : MemoryPool)

/-- What a call of `coind_create_job` reads. -/
structure Call where
  force : Bool
  now : Int
  coind : CoinbaseCoind
  /-- what `coind_aux_build_auxs` puts into the template -/
  auxs : List (Option Nat)
  records : List CoindAux
  reply : Reply
  /-- `coinb1` and `coinb2` after a coinbase that overruns its arrays -/
  overrun : CString × CString

/-! ## Headers of Decred -/

/-- The loop over `prev32`. -/
def prevhashOf (getwork : Bool) (prevblock : List UInt8) : CString :=
  (List.range 8).flatMap fun i =>
    let word := (prevblock.drop (4 * (7 - i))).take 4
    hexlify (if getwork then word.reverse else word)

/-- `decred_parse_header` -/
def decredParseHeader (getwork : Bool) (header : BlockHeader)
    (templ : YaampJobTemplate) : YaampJobTemplate :=
  let prevhashHex := prevhashOf getwork header.prevblock.toList
  { templ with
    height := toInt32 header.height.toNat
    version :=
      if getwork then hexlify (numberBytes 4 header.version.toNat)
      else hex8 header.version.toNat
    ntime := hex8 header.ntime.toNat
    nbits := hex8 header.nbits.toNat
    prevhashHex := prevhashHex
    prevhashBe := serStringBe2 prevhashHex 8 }

/-- The header that `decred_fix_template` parses. -/
def fixedHeader (coind : CoinbaseCoind) (answer : TemplateAnswer) :
    Option BlockHeader :=
  if coind.rpcencoding = "DCR".toList then answer.header else none

/-- The template after the `memset` that follows its allocation. -/
def zeroedTemplate (now : Int) : YaampJobTemplate where
  created := now
  prevhashHex := []
  prevhashBe := []
  extradataHex := []
  extradataBe := []
  mrHex := []
  txcount := 0
  txsteps := []
  txdata := []
  version := []
  nbits := []
  ntime := []
  height := 0
  value := 0
  coinb1 := []
  coinb2 := []
  coinbase := []
  hasSegwitTxs := false
  hasFilteredTxs := false
  filteredTxsFee := 0

/-! ## The templates of a call -/

section Definitions

variable (sha256Double : Sha256Double) (equihash : Bool) (config : Config)

/-- `decred_create_worktemplate` -/
def decredCreateWorktemplate (now : Int) (header : BlockHeader) :
    YaampJobTemplate :=
  { decredParseHeader true header (zeroedTemplate now) with
    coinb1 := hexlify ((header.bytes.drop 36).take 112)
    coinb2 := hexlify (numberBytes 4 header.stakever.toNat)
    txcount := 1
    txsteps := merkleSteps sha256Double [[]] }

/-- `coind_create_template_memorypool` -/
def coindCreateTemplateMemorypool (now : Int) (answer : MemoryPool) :
    YaampJobTemplate :=
  { zeroedTemplate now with
    value := answer.coinbasevalue
    version := hex8OfInt answer.version
    ntime := hex8OfInt answer.time
    nbits := answer.bits
    prevhashHex := answer.previousblockhash
    height := toInt32 (answer.blocks + 1) }

/-- The template with the header of Decred in place. -/
def fixTemplate (coind : CoinbaseCoind) (answer : TemplateAnswer)
    (templ : YaampJobTemplate) : YaampJobTemplate :=
  match fixedHeader coind answer with
  | none => templ
  | some header =>
      let templ := decredParseHeader false header templ
      if coind.isaux then templ
      else
        { templ with
          prevhashBe :=
            if equihash then stringBe templ.prevhashHex
            else serStringBe2 templ.prevhashHex 8 }

/-- `templ->height` -/
def heightOf (coind : CoinbaseCoind) (answer : TemplateAnswer) : Int :=
  match fixedHeader coind answer with
  | none => toInt32 answer.gbt.height
  | some header => toInt32 header.height.toNat

/-- The number in `templ->ntime`. -/
def timeOf (coind : CoinbaseCoind) (answer : TemplateAnswer) : Nat :=
  match fixedHeader coind answer with
  | none => (answer.gbt.curtime % 2 ^ 32).toNat
  | some header => header.ntime.toNat

theorem heightOf_lt (coind : CoinbaseCoind) (answer : TemplateAnswer) :
    heightOf coind answer < 2 ^ 31 := by
  rw [heightOf]
  split <;> exact toInt32_lt _

/-- The template as `coinbase_create` reads it. -/
def coinbaseTemplate (coind : CoinbaseCoind) (answer : TemplateAnswer)
    (auxs : List (Option Nat)) (value : Int) (hasSegwitTxs : Bool) :
    CoinbaseTemplate where
  height := heightOf coind answer
  flags := []
  ntime := hex8 (timeOf coind answer)
  value := value
  hasSegwitTxs := hasSegwitTxs
  auxs := auxs
  height_lt := heightOf_lt coind answer
  flags_fits := Nat.zero_lt_succ 63
  length_ntime := length_hex8 _
  hex_ntime := hexText_hexlify _

/-- The coin with the commitment of a template that has one. -/
def committed (coind : CoinbaseCoind) (gbt : GetBlockTemplate)
    (hasSegwitTxs : Bool) : CoinbaseCoind :=
  if hasSegwitTxs then
    { coind with
      commitment := gbt.defaultWitnessCommitment.getD coind.commitment }
  else coind

/-- The coinbase of a call, for a template with this value and flag. -/
def coinbaseOf (call : Call) (answer : TemplateAnswer) (value : Int)
    (hasSegwitTxs : Bool) : Option CoinbaseTexts :=
  coinbaseCreate sha256Double call.records
    (committed call.coind answer.gbt hasSegwitTxs)
    (coinbaseTemplate call.coind answer call.auxs value hasSegwitTxs)
    answer.coinbase call.now

/-- `coinb1` and `coinb2` of a template with this value and flag. -/
def coinbaseHalves (call : Call) (answer : TemplateAnswer) (value : Int)
    (hasSegwitTxs : Bool) : CString × CString :=
  match coinbaseOf sha256Double call answer value hasSegwitTxs with
  | none => call.overrun
  | some coinbase => (coinbase.coinb1, coinbase.coinb2)

/-- `coind_create_template` without `usememorypool`. -/
def answerTemplate (call : Call) (answer : TemplateAnswer) :
    Option YaampJobTemplate := do
  let created ←
    createTemplate sha256Double equihash (fun _ => ([], [])) config
      { id := 0, isaux := call.coind.isaux } call.now answer.gbt
  let templ := fixTemplate equihash call.coind answer created
  if call.coind.isaux then some templ
  else
    let halves :=
      coinbaseHalves sha256Double call answer templ.value templ.hasSegwitTxs
    some { templ with coinb1 := halves.1, coinb2 := halves.2 }

/-- The variable `templ`, null where there is none. -/
def callTemplate (call : Call) : Option YaampJobTemplate :=
  match call.reply with
  | .getblocktemplate answer =>
      answerTemplate sha256Double equihash config call answer
  | .getwork header =>
      some (decredCreateWorktemplate sha256Double call.now header)
  | .getmemorypool answer =>
      some (coindCreateTemplateMemorypool call.now answer)

/-- How a call ends: with what it returns and what becomes of the job. -/
inductive Outcome where
  | failed
  | kept
  | replaced (templ : YaampJobTemplate)

/-- `coind_create_job`, with the daemon connected. -/
def coindCreateJob (jobLast : Option YaampJob) (call : Call) : Outcome :=
  match callTemplate sha256Double equihash config call with
  | none => .failed
  | some templ =>
      if !call.force && jobLast.any (sameTemplate call.now templ) then .kept
      else .replaced templ

end Definitions

/-! ## What a call depends on -/

namespace Call

variable (sha256Double : Sha256Double) (equihash : Bool) (config : Config)
variable (call : Call)

/-- The previous block hash that the daemon gives. -/
def parent : CString :=
  match call.reply with
  | .getblocktemplate answer =>
      match fixedHeader call.coind answer with
      | none => answer.gbt.previousblockhash.text
      | some header => prevhashOf false header.prevblock.toList
  | .getwork header => prevhashOf true header.prevblock.toList
  | .getmemorypool answer => answer.previousblockhash

/-- The bits that the daemon gives. -/
def bits : CString :=
  match call.reply with
  | .getblocktemplate answer =>
      match fixedHeader call.coind answer with
      | none => answer.gbt.bits.text
      | some header => hex8 header.nbits.toNat
  | .getwork header => hex8 header.nbits.toNat
  | .getmemorypool answer => answer.bits

/-- The height that the daemon gives, in 32 bits. -/
def height : Int :=
  match call.reply with
  | .getblocktemplate answer => heightOf call.coind answer
  | .getwork header => toInt32 header.height.toNat
  | .getmemorypool answer => toInt32 (answer.blocks + 1)

/-- The hashes of the transactions that are taken over, behind an empty one. -/
def leaves : List CString :=
  match call.reply with
  | .getblocktemplate answer =>
      if call.coind.isaux then []
      else
        (scanTransactions config.limitTxsPerBlock
          answer.gbt.transactions).merkleLeaves
  | .getwork _ => [[]]
  | .getmemorypool _ => []

/-- The value of the coinbase without the fees of the other transactions. -/
def valueOf (gbt : GetBlockTemplate) (given : Int) : Int :=
  let scan := scanTransactions config.limitTxsPerBlock gbt.transactions
  if scan.hasFilteredTxs then given - scan.filteredTxsFee else given

/-- The transactions need a commitment, and the daemon gives one. -/
def segwitOf (gbt : GetBlockTemplate) : Bool :=
  let scan := scanTransactions config.limitTxsPerBlock gbt.transactions
  scan.hasSegwitTxs && gbt.defaultWitnessCommitment.isSome

/-- What the coinbase has behind the nonces, if there is a template. -/
def tail : Option CString :=
  match call.reply with
  | .getblocktemplate answer =>
      if call.coind.isaux then some []
      else
        (givenValue equihash answer.gbt).map fun given =>
          (coinbaseHalves sha256Double call answer
            (valueOf config answer.gbt given)
            (segwitOf config answer.gbt)).2
  | .getwork header => some (hexlify (numberBytes 4 header.stakever.toNat))
  | .getmemorypool _ => some []

end Call

/-- The fields of a template that the comparison or the miners depend on. -/
structure Built (sha256Double : Sha256Double) (equihash : Bool)
    (config : Config) (call : Call) (templ : YaampJobTemplate) : Prop where
  created : templ.created = call.now
  prevhashHex : templ.prevhashHex = call.parent
  nbits : templ.nbits = call.bits
  height : templ.height = call.height
  txcount : templ.txcount = (call.leaves config).length
  txsteps : templ.txsteps = merkleSteps sha256Double (call.leaves config)
  coinb2 : call.tail sha256Double equihash config = some templ.coinb2

section Templates

variable {sha256Double : Sha256Double} {equihash : Bool} {config : Config}
variable {call : Call} {answer : TemplateAnswer} {templ : YaampJobTemplate}

/-- What `coind_create_template` has before the header of Decred. -/
structure Created (sha256Double : Sha256Double) (equihash : Bool)
    (config : Config) (call : Call) (answer : TemplateAnswer)
    (templ : YaampJobTemplate) : Prop where
  created : templ.created = call.now
  prevhashHex : templ.prevhashHex = answer.gbt.previousblockhash.text
  nbits : templ.nbits = answer.gbt.bits.text
  height : templ.height = toInt32 answer.gbt.height
  leaves :
    let leaves :=
      if call.coind.isaux then []
      else
        (scanTransactions config.limitTxsPerBlock
          answer.gbt.transactions).merkleLeaves
    templ.txcount = leaves.length ∧
      templ.txsteps = merkleSteps sha256Double leaves
  coinb2 : call.coind.isaux = true → templ.coinb2 = []
  coinbase :
    call.coind.isaux = false →
      ∃ given, givenValue equihash answer.gbt = some given ∧
        templ.value = Call.valueOf config answer.gbt given ∧
          templ.hasSegwitTxs = Call.segwitOf config answer.gbt

/-- The header of Decred replaces the parent, the bits and the height. -/
theorem fixTemplate_fields (coind : CoinbaseCoind) (answer : TemplateAnswer)
    (templ : YaampJobTemplate) :
    let fixed := fixTemplate equihash coind answer templ
    fixed.created = templ.created ∧ fixed.txcount = templ.txcount ∧
      fixed.txsteps = templ.txsteps ∧ fixed.coinb2 = templ.coinb2 ∧
        fixed.value = templ.value ∧
          fixed.hasSegwitTxs = templ.hasSegwitTxs := by
  rw [fixTemplate]
  split
  · exact ⟨rfl, rfl, rfl, rfl, rfl, rfl⟩
  · dsimp only
    split <;> exact ⟨rfl, rfl, rfl, rfl, rfl, rfl⟩

theorem fixTemplate_header (coind : CoinbaseCoind) (answer : TemplateAnswer)
    (templ : YaampJobTemplate) :
    let fixed := fixTemplate equihash coind answer templ
    (fixed.prevhashHex =
      match fixedHeader coind answer with
      | none => templ.prevhashHex
      | some header => prevhashOf false header.prevblock.toList) ∧
    (fixed.nbits =
      match fixedHeader coind answer with
      | none => templ.nbits
      | some header => hex8 header.nbits.toNat) ∧
    fixed.height =
      match fixedHeader coind answer with
      | none => templ.height
      | some header => toInt32 header.height.toNat := by
  rw [fixTemplate]
  cases fixedHeader coind answer with
  | none => exact ⟨rfl, rfl, rfl⟩
  | some header =>
      dsimp only
      split <;> simp only [decredParseHeader, and_self]

/-- The corrections leave what the answer says, whatever the coinbase is. -/
theorem Created.built
    (fields : Created sha256Double equihash config call answer templ)
    (asked : call.reply = .getblocktemplate answer)
    {coinb1 coinb2 : CString}
    (tail : call.tail sha256Double equihash config = some coinb2) :
    Built sha256Double equihash config call
      { fixTemplate equihash call.coind answer templ with
        coinb1 := coinb1
        coinb2 := coinb2 } := by
  obtain ⟨sameTime, sameCount, sameSteps, -⟩ :=
    @fixTemplate_fields equihash call.coind answer templ
  obtain ⟨parent, bits, height⟩ :=
    @fixTemplate_header equihash call.coind answer templ
  have leaves := fields.leaves
  exact {
    created := sameTime.trans fields.created
    prevhashHex := by
      rw [parent, Call.parent, asked, fields.prevhashHex]
    nbits := by
      rw [bits, Call.bits, asked, fields.nbits]
    height := by
      rw [height, Call.height, asked, fields.height]
      rfl
    txcount := by
      rw [sameCount, Call.leaves, asked]
      exact leaves.1
    txsteps := by
      rw [sameSteps, Call.leaves, asked]
      exact leaves.2
    coinb2 := tail }

end Templates

end YiimpStratum.Kept
