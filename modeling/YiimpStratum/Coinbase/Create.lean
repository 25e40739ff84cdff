import Mathlib.Data.Rat.Defs
import YiimpStratum.Merged.Auxs
import YiimpStratum.Submit.Buffers
import YiimpStratum.Util.Base58
import YiimpStratum.Util.HexText

/-!
# The coinbase transaction

`coinbase_create` of `coinbase.cpp`, which writes the two halves of the
coinbase of a template: first the input, then for each kind of coin a count,
the outputs and the lock time.

The outcome is `none` where a text does not fit into the array it is written
to.  This can happen to `script2`, `commitment`, `script_dests`,
`charity_payee` and `coinb2_part`; the other arrays have room for every text
that fits into its fields.  The members of the answer have the types they are
read with.  Percentages are exact, and `coind->reward` is left out.
-/

namespace YiimpStratum.Coinbase

open YiimpStratum.Util
open YiimpStratum.Template
open YiimpStratum.Submit
open YiimpStratum.Merged

/-! ## Inputs -/

/-- The fields of `YAAMP_COIND` that the coinbase depends on. -/
structure CoinbaseCoind where
  symbol : CString
  rpcencoding : CString
  pubkey : CString
  scriptPubkey : CString
  p2shAddress : Bool
  pos : Bool
  txmessage : Bool
  isaux : Bool
  charityAddress : CString
  charityAmount : Rat
  charityPercent : Rat
  rewardMul : Rat
  hasmasternodes : Bool
  oldmasternodes : Bool
  commitment : CString

/-- The fields of `YAAMP_JOB_TEMPLATE` that are read. -/
structure CoinbaseTemplate where
  height : Int
  flags : CString
  ntime : CString
  value : Int
  hasSegwitTxs : Bool
  auxs : List (Option Nat)
  height_lt : height < 2 ^ 31
  flags_fits : flags.length < 64
  length_ntime : ntime.length = 8
  hex_ntime : HexText ntime

/-- An object with the members `payee` and `amount`. -/
structure Payment where
  payee : Option CString
  amount : Int

/-- The object `incentive`. -/
structure Incentive where
  address : Option CString
  enforced : Bool
  amount : Int

/-- The members of the result of `getblocktemplate` that are read. -/
structure CoinbaseAnswer where
  superblocksEnabled : Bool
  superblock : Option (List Payment)
  screfund : Option (List Payment)
  dynode : Option Payment
  dynodePayments : Bool
  dynodePaymentsEnforced : Bool
  dynodePaymentsStarted : Bool
  masternode : Option Payment
  masternodePayments : Bool
  masternodePaymentsEnforced : Bool
  masternodePaymentsStarted : Bool
  goldminenode : Option Payment
  goldminenodePaymentsEnforced : Bool
  eternitynode : Option Payment
  eternitynodePaymentsEnforced : Bool
  founder : Option Payment
  founderPaymentsStarted : Bool
  incentive : Option Incentive
  payee : Option CString
  payeeAmount : Int
  amount : Int
  donationPayee : Option CString
  donationAmount : Int
  enforceMasternodePayments : Bool
  enforceSystemnodePayments : Bool
  masternodes : Bool
  systemnodes : Bool
  payeeSN : Option CString
  payeeSNAmount : Int

/-! ## Numbers and texts -/

/-- A text and its terminator in an array of the given size. -/
def sprintfInto (size : Nat) (text : CString) : Option CString :=
  if text.length < size then some text else none

/-- The loop of `ser_number`, after the number of bytes. -/
def serBytes (n : Int) : List UInt8 :=
  if 127 < n then UInt8.ofNat (n % 256).toNat :: serBytes (n / 256)
  else [UInt8.ofNat (n % 256).toNat]
termination_by n.toNat
decreasing_by omega

def serNumber (n : Int) : CString :=
  hexlify (UInt8.ofNat (serBytes n).length :: serBytes n)

/-- `TX_VALUE` -/
def txValue (v : Int) (s : Nat) : UInt8 :=
  UInt8.ofNat (v / 2 ^ s % 256).toNat

def encodeTxValue (value : Int) : CString :=
  hexlify
    [txValue value 0, txValue value 8, txValue value 16, txValue value 24,
      txValue value 32, txValue value 40, txValue value 48, txValue value 56]

/-- The product with a percentage, as an integer. -/
def percentOf (available : Int) (percent : Rat) : Int :=
  let amount := (available : Rat) * percent / 100
  amount.num.tdiv amount.den

/-! ## Outputs -/

/-- The three texts of an output. -/
structure TxOut where
  value : CString
  scriptLength : CString
  script : CString
  deriving DecidableEq

def TxOut.text (out : TxOut) : CString :=
  out.value ++ out.scriptLength ++ out.script

/-- The texts of `p2sh_pack_tx`, with an array `coinb2_part` of some size. -/
def p2shPackInto (size : Nat) (amount : Int) (payee : CString) :
    Option TxOut := do
  let coinb2Part ←
    sprintfInto size
      ("a9".toList ++ hex2 (payee.length / 2 % 256) ++ payee ++ "87".toList)
  some
    { value := encodeTxValue amount
      scriptLength := hex2 (coinb2Part.length / 2 % 256)
      script := coinb2Part }

def p2shPackTx (amount : Int) (payee : CString) : Option TxOut :=
  p2shPackInto 256 amount payee

def jobPackTx (coind : CoinbaseCoind) (amount : Int) (key : Option CString) :
    Option TxOut :=
  if coind.p2shAddress ∧ key = none then p2shPackTx amount coind.scriptPubkey
  else if coind.pos ∧ key = none then
    some
      { value := encodeTxValue amount
        scriptLength := "23".toList
        script := "21".toList ++ coind.pubkey ++ "ac".toList }
  else
    some
      { value := encodeTxValue amount
        scriptLength := "19".toList
        script :=
          "76a914".toList ++ key.getD coind.scriptPubkey ++ "88ac".toList }

/-- `script_payee` after `base58_decode`, whatever it returned. -/
def scriptPayee (payee : CString) : CString :=
  (base58Decode payee).2

/-- What is owed to a payee, and whether it is packed by `p2sh_pack_tx`. -/
structure Due where
  payee : CString
  amount : Int
  p2sh : Bool

def Due.pack (coind : CoinbaseCoind) (due : Due) : Option TxOut :=
  if due.p2sh then p2shPackTx due.amount (scriptPayee due.payee)
  else jobPackTx coind due.amount (some (scriptPayee due.payee))

/-- `payee && amount` -/
def Payment.due (p2sh : Bool) (payment : Payment) : Option Due :=
  match payment.payee with
  | some payee =>
      if payment.amount ≠ 0 then some ⟨payee, payment.amount, p2sh⟩ else none
  | none => none

/-- What follows the input: the count, the outputs and the lock time. -/
structure Body where
  count : CString
  outputs : List TxOut
  locktime : CString

def Body.text (body : Body) : CString :=
  body.count ++ body.outputs.flatMap TxOut.text ++ body.locktime

/-- A `return` before anything is written. -/
def Body.empty : Body where
  count := []
  outputs := []
  locktime := []

/-- A count, some outputs and the lock time. -/
def Body.written (count : CString) (outputs : List TxOut) : Body where
  count := count
  outputs := outputs
  locktime := "00000000".toList

/-- The string `commitment`. -/
def commitmentOut (coind : CoinbaseCoind) : TxOut where
  value := "0000000000000000".toList
  scriptLength := hex2 (coind.commitment.length / 2)
  script := coind.commitment

/-- The outputs for the commitment, when the template has one. -/
def commitmentOf (coind : CoinbaseCoind) (templ : CoinbaseTemplate) :
    Option (List TxOut) :=
  if templ.hasSegwitTxs then
    (sprintfInto 128 (commitmentOut coind).text).map fun _ =>
      [commitmentOut coind]
  else some []

/-! ## The coin before the outputs -/

/-- The defaults for a coin with a mandatory fee. -/
def CoinbaseCoind.withCharity (coind : CoinbaseCoind) (percent : Rat)
    (address : CString) : CoinbaseCoind :=
  { coind with
    charityPercent :=
      if coind.charityPercent ≤ 0 then percent else coind.charityPercent
    charityAddress :=
      if coind.charityAddress = [] then address else coind.charityAddress }

/-- The coin `coind` and the variable `available` after the first cases. -/
def prepare (coind : CoinbaseCoind) (templ : CoinbaseTemplate)
    (answer : CoinbaseAnswer) : CoinbaseCoind × Int :=
  if coind.symbol = "EGC".toList then
    (coind.withCharity 2 "EdFwYw4Mo2Zq6CFM2yNJgXvE2DTJxgdBRX".toList,
      templ.value)
  else if coind.symbol = "DYN".toList then (coind, templ.value)
  else if coind.symbol = "LTCR".toList then
    (coind.withCharity 10 "BCDrF1hWdKTmrjXXVFTezPjKBmGigmaXg5".toList,
      templ.value)
  else if coind.symbol = "XZC".toList then
    (coind.withCharity 25 "aHu897ivzmeFuLNB6956X6gyGeVNHUBRgD".toList,
      templ.value)
  else if coind.rpcencoding = "DCR".toList then
    ({ coind with
        rewardMul := 6
        charityPercent := 0
        charityAmount := templ.value
        charityAddress :=
          if coind.charityAddress = [] ∧ coind.symbol = "DCR".toList then
            "Dcur2mcGjmENx4DhNqDctW5wJCVyT3Qeqkx".toList
          else coind.charityAddress },
      templ.value * 6)
  else if coind.symbol = "STAK".toList then
    ({ coind with
        charityAddress :=
          match templ.height.tmod 4 with
          | 0 => "3K3bPrW5h7DYEMp2RcXawTCXajcm4ZU9Zh".toList
          | 1 => "33Ssxmn3ehVMgyxgegXhpLGSBpubPjLZQ6".toList
          | 2 => "3HFPNAjesiBY5sSVUmuBFnMEGut69R49ca".toList
          | 3 => "37jLjjfUXQU4bdqVzvpUXyzAqPQSmxyByi".toList
          | _ => coind.charityAddress },
      templ.value)
  else if coind.symbol = "TUX".toList then
    ({ coind with charityAddress := answer.donationPayee.getD [] },
      templ.value)
  else (coind, templ.value)

/-- `charity_payee`: the member `payee`, cut off, or the charity address. -/
def charityPayee (coind : CoinbaseCoind) (payee : Option CString) :
    Option CString :=
  match payee with
  | some payee => some (payee.take 254)
  | none => sprintfInto 256 coind.charityAddress

/-! ## Coins with several payees -/

/-- The variables `npayees`, `available` and `script_dests`. -/
structure Dests where
  npayees : Nat
  available : Int
  scriptDests : List TxOut

def Dests.add (coind : CoinbaseCoind) (dests : Dests) (due : Due) :
    Option Dests := do
  let out ← due.pack coind
  some
    { npayees := dests.npayees + 1
      available := dests.available - due.amount
      scriptDests := dests.scriptDests ++ [out] }

/-- The outputs for the payees, and the one of the miner after them. -/
def payeesBody (coind : CoinbaseCoind) (commitment : List TxOut)
    (npayees : Nat) (available : Int) (dues : List Due) : Option Body := do
  let dests ← dues.foldlM (Dests.add coind) ⟨npayees, available, []⟩
  let _ ← sprintfInto 2048 (dests.scriptDests.flatMap TxOut.text)
  let miner ← jobPackTx coind dests.available none
  some
    (Body.written (hex2 dests.npayees)
      (commitment ++ dests.scriptDests ++ [miner]))

/-- The payees of the array `superblock`. -/
def superblockDues (enabled : Bool) (superblock : Option (List Payment))
    (p2sh : Bool) : List Due :=
  if enabled then (superblock.getD []).filterMap (Payment.due p2sh) else []

/-- The payee of an object such as `masternode`. -/
def nodeDues (enabled : Bool) (node : Option Payment) (p2sh : Bool) :
    List Due :=
  if enabled then (node.bind (Payment.due p2sh)).toList else []

/-- The initial value of `npayees` for a coin with a commitment. -/
def npayeesOf (templ : CoinbaseTemplate) : Nat :=
  if templ.hasSegwitTxs then 2 else 1

def dynodeDues (answer : CoinbaseAnswer) : List Due :=
  superblockDues answer.superblocksEnabled answer.superblock false ++
    nodeDues (answer.dynodePaymentsEnforced && answer.dynodePaymentsStarted)
      answer.dynode false

/-- The charity of a coin with masternodes. -/
def masternodeCharity (coind : CoinbaseCoind) (answer : CoinbaseAnswer)
    (available : Int) : Option (List Due) :=
  if coind.charityPercent ≠ 0 then
    (charityPayee coind answer.payee).map fun payee =>
      [⟨payee, percentOf available coind.charityPercent, false⟩]
  else some []

/-- The payees of the superblock and of the masternode. -/
def masternodeDues (coind : CoinbaseCoind) (answer : CoinbaseAnswer) :
    List Due :=
  let p2sh := coind.symbol = "MAC".toList
  let refund := answer.screfund.any fun screfund => screfund ≠ []
  superblockDues (answer.superblocksEnabled || refund)
      (if refund then answer.screfund else answer.superblock) p2sh ++
    nodeDues
      (answer.masternodePaymentsEnforced && answer.masternodePaymentsStarted)
      answer.masternode p2sh

def goldminenodeDues (answer : CoinbaseAnswer) : List Due :=
  superblockDues answer.superblocksEnabled answer.superblock false ++
    nodeDues answer.goldminenodePaymentsEnforced answer.goldminenode false

def eternitynodeDues (answer : CoinbaseAnswer) : List Due :=
  superblockDues answer.superblocksEnabled answer.superblock false ++
    nodeDues answer.eternitynodePaymentsEnforced answer.eternitynode false

def systemnodeDues (answer : CoinbaseAnswer) : List Due :=
  nodeDues (answer.enforceSystemnodePayments && answer.systemnodes)
      (some ⟨answer.payeeSN, answer.payeeSNAmount⟩) false ++
    nodeDues (answer.enforceMasternodePayments && answer.masternodes)
      (some ⟨answer.payee, answer.amount⟩) false

/-- The coin `STAK` pays one masternode. -/
def treasuryDues (answer : CoinbaseAnswer) : List Due :=
  nodeDues (answer.enforceMasternodePayments && answer.masternodePayments)
    (some ⟨answer.payee, answer.payeeAmount⟩) false

/-! ## The cases -/

section Cases

variable (coind : CoinbaseCoind) (templ : CoinbaseTemplate)
variable (answer : CoinbaseAnswer) (available : Int)
variable (commitment : List TxOut)

/-- `"03"` with a commitment, or else `"02"`. -/
def threeOrTwo : CString :=
  if templ.hasSegwitTxs then "03".toList else "02".toList

def dynodes : Option (CoinbaseCoind × Body) := do
  let body ←
    payeesBody coind commitment (npayeesOf templ) available
      (dynodeDues answer)
  some (coind, body)

/-- The payees of the coin `XZC`. -/
def znodePayees : List CString :=
  ["aCAgTPgtYcA4EysU4UKC86EQd5cTtHtCcr".toList, coind.charityAddress,
    "aQ18FBVFtnueucZKeVg4srhmzbpAeb1KoN".toList,
    "a1HwTdCmQV3NspP2QqCGpehoFpi8NY4Zg3".toList,
    "a1kCCGddf5pMXSipLVD9hBG2MGGVNaJ15U".toList]

def znodes : Option (CoinbaseCoind × Body) := do
  let charityAmount := percentOf available coind.charityPercent
  let miner ← jobPackTx coind available none
  let payees ← (znodePayees coind).mapM fun payee =>
    jobPackTx coind (charityAmount.tdiv 5) (some (scriptPayee payee))
  some (coind, Body.written "06".toList (miner :: payees))

def treasury : Option (CoinbaseCoind × Body) := do
  let dues := treasuryDues answer
  let npayees := npayeesOf templ + dues.length + 1
  let available := available - 50000000
  let charity ←
    p2shPackInto 1024 50000000 (scriptPayee coind.charityAddress)
  let payees ← dues.mapM (Due.pack coind)
  let miner ←
    jobPackTx coind (available - (dues.map Due.amount).sum) none
  some
    (coind,
      Body.written (hex2 npayees)
        (commitment ++ charity :: payees ++ [miner]))

def donation : Option (CoinbaseCoind × Body) := do
  let charityPayee ← sprintfInto 256 coind.charityAddress
  let miner ← jobPackTx coind available none
  let charity ←
    p2shPackInto 1024 answer.donationAmount (scriptPayee charityPayee)
  some
    ({ coind with charityAmount := answer.donationAmount },
      Body.written (threeOrTwo templ) (commitment ++ [miner, charity]))

/-- What is owed to the founder. -/
def founderDue : Option Due :=
  (answer.founder.bind (Payment.due (coind.symbol = "PGN".toList))).map
    fun due => { due with payee := due.payee.take 254 }

def founder : Option (CoinbaseCoind × Body) := do
  let due ← founderDue coind answer
  let miner ← jobPackTx coind (available - due.amount) none
  let founder ← due.pack coind
  some
    (coind, Body.written (threeOrTwo templ) (commitment ++ [miner, founder]))

def charity : Option (CoinbaseCoind × Body) := do
  let payee ← charityPayee coind answer.payee
  let charityAmount :=
    if answer.payeeAmount ≤ 0 then percentOf available coind.charityPercent
    else answer.payeeAmount
  let miner ← jobPackTx coind (available - charityAmount) none
  let charity ← jobPackTx coind charityAmount (some (scriptPayee payee))
  some
    ({ coind with charityAmount := charityAmount },
      Body.written (threeOrTwo templ) (commitment ++ [miner, charity]))

/-- The incentive is paid, or its payee does not fit into `charity_payee`. -/
def incentiveTaken (incentive : Incentive) : Bool :=
  match charityPayee coind incentive.address with
  | none => true
  | some payee =>
      incentive.enforced && incentive.amount != 0 && payee != []

def incentive : Option (CoinbaseCoind × Body) := do
  let incentive ← answer.incentive
  let payee ← charityPayee coind incentive.address
  let miner ← jobPackTx coind available none
  let charity ← jobPackTx coind incentive.amount (some (scriptPayee payee))
  some
    ({ coind with charityAmount := incentive.amount },
      Body.written "02".toList [miner, charity])

def masternodes : Option (CoinbaseCoind × Body) := do
  let charity ← masternodeCharity coind answer available
  let body ←
    payeesBody coind commitment (npayeesOf templ) available
      (charity ++ masternodeDues coind answer)
  some
    ({ coind with
        charityAmount :=
          if coind.charityPercent ≠ 0 then
            percentOf available coind.charityPercent
          else coind.charityAmount },
      body)

/-- The coins `ARC`, `ENT` and `CRW` have no commitment. -/
def plainPayees (dues : List Due) : Option (CoinbaseCoind × Body) := do
  let body ← payeesBody coind [] 1 available dues
  some (coind, body)

def goldminenodes : Option (CoinbaseCoind × Body) :=
  plainPayees coind available (goldminenodeDues answer)

def eternitynodes : Option (CoinbaseCoind × Body) :=
  plainPayees coind available (eternitynodeDues answer)

def systemnodes : Option (CoinbaseCoind × Body) :=
  plainPayees coind available (systemnodeDues answer)

/-- `charity_payee` of the old keys. -/
def enforcedPayee : CString :=
  (answer.payee.getD []).take 254

def enforced : Option (CoinbaseCoind × Body) := do
  let charity ←
    jobPackTx coind answer.payeeAmount
      (some (scriptPayee (enforcedPayee answer)))
  let miner ← jobPackTx coind (available - answer.payeeAmount) none
  some
    (coind, Body.written (threeOrTwo templ) (commitment ++ [charity, miner]))

def unenforced : Option (CoinbaseCoind × Body) := do
  let miner ← jobPackTx coind available none
  some (coind, Body.written "01".toList [miner])

def plain : Option (CoinbaseCoind × Body) := do
  let miner ← jobPackTx coind available none
  some
    (coind,
      Body.written (if templ.hasSegwitTxs then "02".toList else "01".toList)
        (commitment ++ [miner]))

/-- The places where `coinbase_create` ends. -/
inductive Branch where
  | oldDynodes
  | dynodes
  | znodes
  | treasury
  | donation
  | founder
  | charity
  | getwork
  | incentive
  | oldMasternodes
  | masternodes
  | goldminenodes
  | eternitynodes
  | systemnodes
  | enforced
  | unenforced
  | plain
  deriving DecidableEq

/-- The case of a coin after `prepare`. -/
def branchOf : Branch :=
  if coind.symbol = "DYN".toList then
    if answer.dynode.isNone ∧ answer.dynodePayments then .oldDynodes
    else .dynodes
  else if coind.symbol = "XZC".toList then .znodes
  else if coind.rpcencoding ≠ "DCR".toList ∧ coind.symbol = "STAK".toList then
    .treasury
  else if coind.rpcencoding ≠ "DCR".toList ∧ coind.symbol = "TUX".toList ∧
      coind.charityAddress ≠ [] then
    .donation
  else if ¬ coind.hasmasternodes ∧ answer.founderPaymentsStarted ∧
      (founderDue coind answer).isSome then
    .founder
  else if coind.charityPercent ≠ 0 ∧ ¬ coind.hasmasternodes then .charity
  else if coind.charityAmount ≠ 0 ∧ coind.rpcencoding = "DCR".toList then
    .getwork
  else if coind.symbol = "XVC".toList ∧
      answer.incentive.any (incentiveTaken coind) then
    .incentive
  else if coind.hasmasternodes ∧ ¬ coind.oldmasternodes then
    if answer.masternode.isNone ∧ answer.masternodePayments then
      .oldMasternodes
    else .masternodes
  else if coind.symbol = "ARC".toList then .goldminenodes
  else if coind.symbol = "ENT".toList then .eternitynodes
  else if coind.hasmasternodes then
    if coind.symbol = "CRW".toList then .systemnodes
    else if answer.masternodePayments ∧ answer.enforceMasternodePayments then
      .enforced
    else .unenforced
  else .plain

/-- The coin after a case, and what the case writes. -/
def bodyOf (branch : Branch) : Option (CoinbaseCoind × Body) :=
  match branch with
  | .oldDynodes => some ({ coind with oldmasternodes := true }, Body.empty)
  | .dynodes => dynodes coind templ answer available commitment
  | .znodes => znodes coind available
  | .treasury => treasury coind templ answer available commitment
  | .donation => donation coind templ answer available commitment
  | .founder => founder coind templ answer available commitment
  | .charity => charity coind templ answer available commitment
  | .getwork => some (coind, Body.empty)
  | .incentive => incentive coind answer available
  | .oldMasternodes =>
      some ({ coind with oldmasternodes := true }, Body.empty)
  | .masternodes => masternodes coind templ answer available commitment
  | .goldminenodes => goldminenodes coind answer available
  | .eternitynodes => eternitynodes coind answer available
  | .systemnodes => systemnodes coind answer available
  | .enforced => enforced coind templ answer available commitment
  | .unenforced => unenforced coind available
  | .plain => plain coind templ available commitment

end Cases

/-! ## The transaction -/

/-- The texts of the coinbase, and the coin afterwards. -/
structure CoinbaseTexts where
  coind : CoinbaseCoind
  eversion1 : CString
  entime : CString
  scriptLength : CString
  script1 : CString
  script2 : CString
  body : Body

/-- `templ->coinb1` -/
def CoinbaseTexts.coinb1 (coinbase : CoinbaseTexts) : CString :=
  coinbase.eversion1 ++ coinbase.entime ++ "01".toList ++
    List.replicate 64 '0' ++ "ffffffff".toList ++ coinbase.scriptLength ++
      coinbase.script1

/-- `templ->coinb2` -/
def CoinbaseTexts.coinb2 (coinbase : CoinbaseTexts) : CString :=
  coinbase.script2 ++ "00000000".toList ++ coinbase.body.text

/-- The text that `coinbase_aux` appends. -/
def coinbaseAux (sha256Double : Sha256Double) (records : List CoindAux)
    (auxs : List (Option Nat)) : CString :=
  "fabe6d6d".toList ++ coinbaseAuxRoot sha256Double records auxs ++
    hex2 auxs.length ++ "00000000000000".toList

def script2Of (sha256Double : Sha256Double) (records : List CoindAux)
    (coind : CoinbaseCoind) (templ : CoinbaseTemplate) : Option CString :=
  let script2 := "7969696d7000".toList
  if ¬ coind.pos ∧ ¬ coind.isaux ∧ templ.auxs ≠ [] then
    sprintfInto 32 (script2 ++ coinbaseAux sha256Double records templ.auxs)
  else some script2

/-- The variable `script1` at the time `now`. -/
def script1Of (templ : CoinbaseTemplate) (now : Int) : CString :=
  serNumber templ.height ++ templ.flags ++
    (serNumber (toInt32 now) ++ "08".toList)

/-- The texts of a coinbase around what the case of the coin has written. -/
def coinbaseTexts (coind : CoinbaseCoind) (templ : CoinbaseTemplate)
    (now : Int) (script2 : CString) (written : CoinbaseCoind × Body) :
    CoinbaseTexts where
  coind := written.1
  eversion1 :=
    if coind.txmessage then "02000000".toList else "01000000".toList
  entime := if coind.pos then serStringBe templ.ntime 1 else []
  scriptLength :=
    hex2 ((script1Of templ now).length / 2 + script2.length / 2 + 8)
  script1 := script1Of templ now
  script2 := script2
  body := written.2

/-- What `coinbase_create` appends to `coinb2`, and the coin afterwards. -/
def coinbaseBody (coind : CoinbaseCoind) (templ : CoinbaseTemplate)
    (answer : CoinbaseAnswer) : Option (CoinbaseCoind × Body) := do
  let commitment ← commitmentOf coind templ
  let (prepared, available) := prepare coind templ answer
  bodyOf prepared templ answer available commitment (branchOf prepared answer)

/-- `coinbase_create` at the time `now`. -/
def coinbaseCreate (sha256Double : Sha256Double) (records : List CoindAux)
    (coind : CoinbaseCoind) (templ : CoinbaseTemplate)
    (answer : CoinbaseAnswer) (now : Int) : Option CoinbaseTexts := do
  let script2 ← script2Of sha256Double records coind templ
  let written ← coinbaseBody coind templ answer
  some (coinbaseTexts coind templ now script2 written)

end YiimpStratum.Coinbase
