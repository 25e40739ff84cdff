import YiimpStratum.Submit.Values

/-!
# The header of the miner and the header of the pool

`job_mining_notify_buffer` announces the fields of the header to the miner,
and `build_submit_values_equi` assembles the header again for every
submission.  Most fields take the same string on both paths.  The merkle root
does not: the announced one is computed from the list `txhashes` when the
template is made, the submitted one from the list that `has_segwit_txs`
selects.

The two headers agree exactly when the roots of the two lists agree, the
notification has the Equihash form and no parameter of the submission is cut.
-/

namespace YiimpStratum.Submit

open YiimpStratum
open YiimpStratum.Util
open YiimpStratum.Template

/-! ## The notification -/

/--
The parameters of `mining.notify`: the form for the two root hashes of smart
contracts, and the Equihash form.
-/
inductive NotifyParams where
  | extradata
      (jobid prevhash extradata coinb1 coinb2 : CString)
      (txmerkles : List CString) (version nbits ntime : CString)
  | equihash
      (jobid version prevhash merkleroot reserved ntime nbits : CString)

/-- `job_mining_notify_buffer` when the algorithm is `equihash`. -/
def jobMiningNotifyBuffer (jobid : Nat) (templ : YaampJobTemplate) :
    NotifyParams :=
  if templ.extradataHex.length = 128 then
    .extradata (hexNumber jobid) templ.prevhashBe templ.extradataBe
      templ.coinb1 templ.coinb2 templ.txsteps templ.version templ.nbits
      templ.ntime
  else
    .equihash (hexNumber jobid) (stringBe templ.version)
      (stringBe templ.prevhashHex) (stringBe templ.mrHex) templ.extradataBe
      (stringBe templ.ntime) (stringBe templ.nbits)

/--
The header a miner hashes: the announced strings, its nonce prefix and the
strings it submits, in lower case.
-/
def announcedHeader (nonce1 : CString) (request : SubmitRequest) :
    NotifyParams → Option CString
  | .extradata .. => none
  | .equihash _ version prevhash merkleroot reserved _ nbits =>
      some
        (version ++ prevhash ++ merkleroot ++ reserved ++
          stringLower request.ntimeParam ++ nbits ++ nonce1 ++
            stringLower request.nonceParam ++
              stringLower request.equiSolutionParam)

/-! ## The condition -/

section Agreement

variable (sha256Double : Sha256Double)

/-- The member `hash` of `coinbasetxn` belongs to its member `data`. -/
def CoinbaseHashed (gbt : GetBlockTemplate) : Prop :=
  ∀ coinbasetxn, gbt.coinbasetxn = some coinbasetxn →
    coinbasetxn.hash.text =
      stringBe
        (sha256DoubleHashHex sha256Double (binlify coinbasetxn.data))

/--
The announced and the submitted merkle root agree.  For an ordinary coin this
says that the list used for submissions is `txhashes`, or has its root.  The
template of a merge-mined coin has no coinbase and no previous hash in the
submitted order, so that the root takes the place of the previous hash.
-/
def RootsAgree
    (config : Config) (coind : YaampCoind) (gbt : GetBlockTemplate) : Prop :=
  if coind.isaux = true then
    sha256DoubleHashHex sha256Double [] =
      stringBe gbt.previousblockhash.text
  else
    let scan := scanTransactions config.limitTxsPerBlock gbt.transactions
    scan.hasSegwitTxs = false ∨
      ∀ coinbasetxn, gbt.coinbasetxn = some coinbasetxn →
        merkleWithFirst sha256Double (merkleSteps sha256Double scan.txids)
            (stringBe coinbasetxn.hash.text) =
          merkleWithFirst sha256Double
            (merkleSteps sha256Double scan.txhashes)
            (stringBe coinbasetxn.hash.text)

end Agreement

/-! ## Field by field -/

/-- Two concatenations agree when their first parts have one length. -/
theorem append_eq_append_iff_of_length
    {left right leftRest rightRest : CString}
    (lengths : left.length = right.length) :
    left ++ leftRest = right ++ rightRest ↔
      left = right ∧ leftRest = rightRest := by
  constructor
  · intro same
    exact List.append_inj same lengths
  · rintro ⟨rfl, rfl⟩
    rfl

/-- The fields that follow the roots agree exactly when nothing was cut. -/
theorem tail_eq_iff
    (reserved nbits nonce1 nonce ntimeParam solution : CString)
    (digits : (ntimeParam.take 8).length = 8) :
    reserved ++ stringLower (ntimeParam.take 8) ++ nbits ++ nonce1 ++ nonce ++
          stringLower (solution.take (1344 * 2 + 3 * 2)) =
        reserved ++ stringLower ntimeParam ++ nbits ++ nonce1 ++ nonce ++
          stringLower solution ↔
      ntimeParam.length ≤ 8 ∧ solution.length ≤ 1344 * 2 + 3 * 2 := by
  constructor
  · intro same
    have lengths := congrArg List.length same
    simp only [List.length_append, length_stringLower, List.length_take]
      at lengths digits
    omega
  · rintro ⟨shortTime, shortSolution⟩
    rw [List.take_of_length_le shortTime,
      List.take_of_length_le shortSolution]

/-! ## The two headers -/

section Headers

variable {sha256Double : Sha256Double}

/-- For the Equihash form only the two hashes and the cut can differ. -/
theorem announcedHeader_eq_some_iff
    {templ : YaampJobTemplate} {request : SubmitRequest}
    (jobid : Nat) (nonce1 : CString)
    (form : templ.extradataHex.length ≠ 128)
    (lengths :
      (stringBe templ.prevhashHex ++ stringBe templ.mrHex).length =
        (templ.prevhashBe ++ merklerootOf sha256Double templ).length)
    (nonceOk : nonceAccepted request.nonce = true)
    (digits : request.ntime.length = 8) :
    announcedHeader nonce1 request (jobMiningNotifyBuffer jobid templ) =
        some
          (headerOf sha256Double templ nonce1 request.ntime request.nonce
            request.equiSolution) ↔
      stringBe templ.prevhashHex ++ stringBe templ.mrHex =
          templ.prevhashBe ++ merklerootOf sha256Double templ ∧
        request.ntimeParam.length ≤ 8 ∧
          request.equiSolutionParam.length ≤ 1344 * 2 + 3 * 2 := by
  have timeDigits : (request.ntimeParam.take 8).length = 8 := by
    rw [← length_stringLower, ← stringBe_ntime digits, length_stringBe,
      digits]
  have announced :
      announcedHeader nonce1 request (jobMiningNotifyBuffer jobid templ) =
        some
          (stringBe templ.version ++
            ((stringBe templ.prevhashHex ++ stringBe templ.mrHex) ++
              (templ.extradataBe ++ stringLower request.ntimeParam ++
                stringBe templ.nbits ++ nonce1 ++
                  stringLower request.nonceParam ++
                    stringLower request.equiSolutionParam))) := by
    rw [jobMiningNotifyBuffer, if_neg form]
    simp only [announcedHeader, List.append_assoc]
  have submitted :
      headerOf sha256Double templ nonce1 request.ntime request.nonce
          request.equiSolution =
        stringBe templ.version ++
          ((templ.prevhashBe ++ merklerootOf sha256Double templ) ++
            (templ.extradataBe ++
              stringLower (request.ntimeParam.take 8) ++
                stringBe templ.nbits ++ nonce1 ++
                  stringLower request.nonceParam ++
                    stringLower
                      (request.equiSolutionParam.take
                        (1344 * 2 + 3 * 2)))) := by
    rw [headerOf, stringBe_ntime digits, nonce_eq_of_accepted nonceOk,
      SubmitRequest.equiSolution]
    simp only [List.append_assoc]
  rw [announced, submitted, Option.some_inj, List.append_cancel_left_eq,
    append_eq_append_iff_of_length lengths, eq_comm (a := _ ++ _ ++ _),
    tail_eq_iff _ _ _ _ _ _ timeDigits]

end Headers

/-! ## From the daemon to the header -/

section Created

variable {sha256Double : Sha256Double}
variable {coinbaseCreate : YaampJobTemplate → CString × CString}
variable {config : Config} {coind : YaampCoind} {now : Int}
variable {gbt : GetBlockTemplate} {templ : YaampJobTemplate}

/-- The fields that every created template takes from the first part. -/
theorem created_fields
    (created :
      coindCreateTemplate sha256Double coinbaseCreate config coind now gbt =
        some templ) :
    templ.extradataHex = (templateHeader now gbt).extradataHex ∧
      templ.ntime = (templateHeader now gbt).ntime ∧
        templ.prevhashHex = (templateHeader now gbt).prevhashHex := by
  rcases coindCreateTemplate_cases created with
    ⟨-, rfl⟩ | ⟨-, coinbasetxn, coinb1, coinb2, -, -, rfl⟩
  · exact ⟨rfl, rfl, rfl⟩
  · exact ⟨rfl, rfl, rfl⟩

/-- The hashes that the miner hears of, and the ones that are submitted. -/
theorem created_roots
    (created :
      coindCreateTemplate sha256Double coinbaseCreate config coind now gbt =
        some templ)
    (hashed : CoinbaseHashed sha256Double gbt) :
    (stringBe templ.prevhashHex ++ stringBe templ.mrHex).length =
        (templ.prevhashBe ++ merklerootOf sha256Double templ).length ∧
      (stringBe templ.prevhashHex ++ stringBe templ.mrHex =
          templ.prevhashBe ++ merklerootOf sha256Double templ ↔
        RootsAgree sha256Double config coind gbt) := by
  have prevhash : (stringBe gbt.previousblockhash.text).length = 64 := by
    rw [length_stringBe, gbt.previousblockhash.length_text]
  rcases coindCreateTemplate_cases created with
    ⟨aux, rfl⟩ | ⟨notAux, coinbasetxn, coinb1, coinb2, found, -, rfl⟩
  · obtain ⟨noPrevhash, noRoot, noSteps, noCoinbase⟩ :=
      templateHeader_aux now gbt
    have root :
        merklerootOf sha256Double (templateHeader now gbt) =
          sha256DoubleHashHex sha256Double [] := by
      rw [merklerootOf, noSteps, noCoinbase]
      rfl
    rw [templateHeader_prevhashHex, noPrevhash, noRoot, root, RootsAgree,
      if_pos aux]
    constructor
    · rw [List.length_append, prevhash]
      simp [stringBe]
    · rw [stringBe, List.append_nil, List.nil_append]
      exact eq_comm
  · have leafHash :
        stringBe coinbasetxn.hash.text =
          sha256DoubleHashHex sha256Double (binlify coinbasetxn.data) := by
      rw [hashed coinbasetxn found, stringBe_stringBe]
      rw [length_sha256DoubleHashHex]
    have reversed : (stringBe coinbasetxn.hash.text).length = 64 := by
      rw [length_stringBe, coinbasetxn.hash.length_text]
    simp only [templateBody, merklerootOf, templateHeader_prevhashHex]
    rw [stringBe_merkleRootHex _ _ coinbasetxn.hash.length_text, ← leafHash,
      List.append_cancel_left_eq, RootsAgree, if_neg (by simp [notAux])]
    constructor
    · rw [List.length_append, List.length_append,
        length_merkleWithFirst _ _ _ reversed,
        length_merkleWithFirst _ _ _ reversed]
    · simp only [TxScan.merkleLeaves, found, Option.some_inj,
        forall_eq']
      cases flag :
          (scanTransactions config.limitTxsPerBlock
            gbt.transactions).hasSegwitTxs with
      | false =>
          simp
      | true =>
          simp only [if_true, Bool.true_eq_false, false_or]
          exact eq_comm

/--
For every template made from a `getblocktemplate` result and every submission
that passes the nonce and time checks, the pool hashes the header of the miner
exactly when the notification has the Equihash form, neither the time nor the
solution was cut, and the roots agree.  The arrays on the way have no bounds
here, neither `coinbase_bin` of 1024 bytes nor `bits_str` of five.
-/
theorem header_eq_announced_iff
    {request : SubmitRequest} {clock : Int}
    (created :
      coindCreateTemplate sha256Double coinbaseCreate config coind now gbt =
        some templ)
    (hashed : CoinbaseHashed sha256Double gbt)
    (nonceOk : nonceAccepted request.nonce = true)
    (timeOk : ntimeError config templ clock request.ntime = none)
    (jobid : Nat) (nonce1 : CString) :
    announcedHeader nonce1 request (jobMiningNotifyBuffer jobid templ) =
        some
          (buildSubmitValuesEqui sha256Double templ nonce1 request.ntime
            request.nonce request.equiSolution).header ↔
      ¬ (gbt.stateroot.isSome ∧ gbt.utxoroot.isSome) ∧
        request.ntimeParam.length ≤ 8 ∧
          request.equiSolutionParam.length ≤ 1344 * 2 + 3 * 2 ∧
            RootsAgree sha256Double config coind gbt := by
  obtain ⟨extradata, ntime, -⟩ := created_fields created
  obtain ⟨lengths, rootsIff⟩ := created_roots created hashed
  have digits : request.ntime.length = 8 := by
    refine length_of_ntimeError ?_ timeOk
    rw [ntime]
    exact templateHeader_ntime_length
  have formIff :
      templ.extradataHex.length = 128 ↔
        gbt.stateroot.isSome ∧ gbt.utxoroot.isSome := by
    rw [extradata]
    exact templateHeader_extradataHex_length_iff
  rw [buildSubmitValuesEqui_header, ← formIff]
  by_cases form : templ.extradataHex.length = 128
  · rw [jobMiningNotifyBuffer, if_pos form]
    simp [announcedHeader, form]
  · rw [announcedHeader_eq_some_iff jobid nonce1 form lengths nonceOk digits,
      rootsIff]
    simp only [form, not_false_eq_true, true_and]
    constructor
    · rintro ⟨roots, shortTime, shortSolution⟩
      exact ⟨shortTime, shortSolution, roots⟩
    · rintro ⟨shortTime, shortSolution, roots⟩
      exact ⟨roots, shortTime, shortSolution⟩

end Created

/-! ## A block with a segregated witness transaction -/

section Sample

/-- A coinbase transaction of 64 bytes. -/
def sampleCoinbase : List UInt8 :=
  [0x01, 0x00, 0x00, 0x00, 0x01] ++ List.replicate 32 0x00 ++
    [0xff, 0xff, 0xff, 0xff, 0x03, 0x51, 0x01, 0x01, 0xff, 0xff, 0xff, 0xff,
      0x01, 0x00, 0xf2, 0x05, 0x2a, 0x01, 0x00, 0x00, 0x00, 0x01, 0x51,
      0x00, 0x00, 0x00, 0x00]

/-- The double SHA-256 digest of the coinbase transaction. -/
def sampleCoinbaseDigest : Vector UInt8 32 :=
  #v[0xfb, 0xb8, 0xf3, 0xa7, 0x6e, 0x4a, 0x49, 0x19, 0xd3, 0x78, 0xa6, 0xb8,
    0x21, 0x4a, 0x08, 0xda, 0x89, 0x41, 0x88, 0x90, 0x33, 0xf2, 0x16, 0x73,
    0x17, 0x97, 0xfc, 0x33, 0x2b, 0xb2, 0xb5, 0xc5]

/-- The digest of the coinbase digest and 32 bytes `22`. -/
def sampleHashRoot : Vector UInt8 32 :=
  #v[0x0d, 0xeb, 0xfe, 0x1c, 0x80, 0x7b, 0xd5, 0x76, 0xea, 0xb7, 0xe2, 0x1b,
    0xfa, 0xfa, 0xf2, 0x56, 0x9f, 0xc9, 0xb4, 0xd8, 0x94, 0xd3, 0x30, 0x07,
    0x30, 0x55, 0x2b, 0xd7, 0x82, 0x59, 0xc3, 0x5b]

/-- The digest of the coinbase digest and 32 bytes `11`. -/
def sampleTxidRoot : Vector UInt8 32 :=
  #v[0xe0, 0x8e, 0xc8, 0xd2, 0x9a, 0xe7, 0xf4, 0xa4, 0x7f, 0xe8, 0x28, 0x88,
    0x16, 0xbb, 0xd1, 0x14, 0x7a, 0x15, 0x47, 0xb8, 0x28, 0x6b, 0x10, 0x63,
    0x8d, 0x6a, 0xe1, 0xb9, 0xa7, 0x22, 0x49, 0xc6]

/-- Double SHA-256 on the three inputs that occur here. -/
def sampleSha256Double : Sha256Double := fun input =>
  if input = sampleCoinbase then sampleCoinbaseDigest
  else if
    input = sampleCoinbaseDigest.toList ++ List.replicate 32 0x22
  then sampleHashRoot
  else if
    input = sampleCoinbaseDigest.toList ++ List.replicate 32 0x11
  then sampleTxidRoot
  else Vector.replicate 32 0

/-- The digits of 32 equal bytes. -/
def repeatedByte (byte : UInt8) : HexDigits 64 where
  text := hexlify (List.replicate 32 byte)
  length_text := by simp

/-- A transaction whose hash is not its id. -/
def segwitTransaction : GbtTransaction where
  hash := repeatedByte 0x22
  txid := some (repeatedByte 0x11)
  data := hexlify [0x02]
  fee := 0

/-- A transaction whose hash is its id. -/
def plainTransaction : GbtTransaction :=
  { segwitTransaction with txid := some (repeatedByte 0x22) }

/-- A block template with the given transactions. -/
def sampleGbt (transactions : List GbtTransaction) : GetBlockTemplate where
  version := 4
  curtime := 0x5e000000
  height := 1
  coinbasevalue := 5000000000
  bits := ⟨hexlify [0x20, 0x0f, 0x0f, 0x0f], by simp⟩
  previousblockhash := repeatedByte 0x33
  target := repeatedByte 0x0f
  finalsaplingroothash := some (repeatedByte 0x00)
  stateroot := none
  utxoroot := none
  hasCoinbaseaux := true
  transactions := transactions
  coinbasetxn := some
    { hash :=
        ⟨stringBe (hexlify sampleCoinbaseDigest.toList), by
          simp [length_stringBe]⟩
      data := hexlify sampleCoinbase
      coinbasevalue := 5000000000 }
  defaultWitnessCommitment := none

def sampleConfig : Config where
  limitTxsPerBlock := 0
  allowRolltime := true

def sampleCoind : YaampCoind where
  id := 1
  isaux := false

def sampleCoinb : YaampJobTemplate → CString × CString :=
  fun _ => ([], [])

/-- A submission with the time of the template. -/
def sampleRequest : SubmitRequest where
  jobidParam := ['1']
  ntimeParam := hexlify [0x00, 0x00, 0x00, 0x5e]
  nonceParam := List.replicate 56 '0'
  equiSolutionParam :=
    hexlify ([0xfd, 0x40, 0x05] ++ List.replicate 1344 0x00)

theorem coinbaseHashed_sampleGbt (transactions : List GbtTransaction) :
    CoinbaseHashed sampleSha256Double (sampleGbt transactions) := by
  intro coinbasetxn found
  have digest :
      sampleSha256Double sampleCoinbase = sampleCoinbaseDigest := by
    rw [sampleSha256Double, if_pos rfl]
  rw [← Option.some.inj found, binlify_hexlify, sha256DoubleHashHex, digest]

theorem sampleRequest_nonceAccepted :
    nonceAccepted sampleRequest.nonce = true := by
  decide

/-- The template of the sample block. -/
def sampleTempl (transactions : List GbtTransaction) : YaampJobTemplate :=
  ((coindCreateTemplate sampleSha256Double sampleCoinb sampleConfig
    sampleCoind 0 (sampleGbt transactions)).getD
      (templateHeader 0 (sampleGbt transactions)))

theorem sampleTempl_created (transactions : List GbtTransaction) :
    coindCreateTemplate sampleSha256Double sampleCoinb sampleConfig
        sampleCoind 0 (sampleGbt transactions) =
      some (sampleTempl transactions) := by
  have fits : (hexlify sampleCoinbase).length + 1 < 16 * 1024 := by
    rw [length_hexlify]
    decide
  have someTempl :
      ∃ templ,
        coindCreateTemplate sampleSha256Double sampleCoinb sampleConfig
            sampleCoind 0 (sampleGbt transactions) =
          some templ :=
    coindCreateTemplate_exists rfl rfl fits
  obtain ⟨templ, created⟩ := someTempl
  rw [sampleTempl, created, Option.getD_some]

theorem sampleRequest_ntimeError (transactions : List GbtTransaction) :
    ntimeError sampleConfig (sampleTempl transactions) 0
      sampleRequest.ntime = none := by
  have ntime :
      (sampleTempl transactions).ntime = sampleRequest.ntime := by
    obtain ⟨-, fromHeader, -⟩ :=
      created_fields (sampleTempl_created transactions)
    rw [fromHeader]
    exact (by decide :
      hex8OfInt 0x5e000000 =
        stringLower (stringBe (hexlify [0x00, 0x00, 0x00, 0x5e])))
  rw [ntimeError, if_pos ntime.symm]

/-- A block with a transaction. -/
theorem header_eq_announced_iff_sample :
    announcedHeader [] sampleRequest
        (jobMiningNotifyBuffer 1 (sampleTempl [plainTransaction])) =
      some
        (buildSubmitValuesEqui sampleSha256Double
          (sampleTempl [plainTransaction]) [] sampleRequest.ntime
          sampleRequest.nonce sampleRequest.equiSolution).header := by
  refine
    (header_eq_announced_iff (sampleTempl_created [plainTransaction])
      (coinbaseHashed_sampleGbt [plainTransaction])
      sampleRequest_nonceAccepted
      (sampleRequest_ntimeError [plainTransaction]) 1 []).mpr ⟨?_, ?_, ?_, ?_⟩
  · simp [sampleGbt]
  · decide
  · rw [sampleRequest, length_hexlify, List.length_append,
      List.length_replicate]
    decide
  · exact Or.inl rfl

theorem sampleTempl_segwit_roots :
    merklerootOf sampleSha256Double (sampleTempl [segwitTransaction]) =
        hexlify sampleTxidRoot.toList ∧
      stringBe (sampleTempl [segwitTransaction]).mrHex =
        hexlify sampleHashRoot.toList := by
  have pair (byte : UInt8) :
      hashPair sampleSha256Double (hexlify sampleCoinbaseDigest.toList)
          (stringBe (repeatedByte byte).text) =
        hexlify
          (sampleSha256Double
              (sampleCoinbaseDigest.toList ++
                List.replicate 32 byte)).toList := by
    rw [hashPair, repeatedByte, stringBe_hexlify, List.reverse_replicate,
      binlify_append _ _ (by simp), binlify_hexlify, binlify_hexlify]
    rfl
  have digest :
      sampleSha256Double sampleCoinbase = sampleCoinbaseDigest := by
    rw [sampleSha256Double, if_pos rfl]
  rcases coindCreateTemplate_cases
      (sampleTempl_created [segwitTransaction]) with
    ⟨aux, -⟩ | ⟨-, coinbasetxn, coinb1, coinb2, found, -, shape⟩
  · exact absurd aux (by decide)
  · rw [shape, ← Option.some.inj found]
    have scan :
        scanTransactions sampleConfig.limitTxsPerBlock
            (sampleGbt [segwitTransaction]).transactions =
          { txhashes := [[], stringBe (repeatedByte 0x22).text]
            txids := [[], stringBe (repeatedByte 0x11).text]
            txdata := [hexlify [0x02]]
            hasSegwitTxs := true
            hasFilteredTxs := false
            filteredTxsFee := 0 } := by
      rfl
    rw [scan]
    constructor
    · rw [merklerootOf]
      simp only [templateBody, TxScan.merkleLeaves, if_true]
      rw [merkleSteps_single, sha256DoubleHashHex, binlify_hexlify, digest,
        merkleWithFirst, List.foldl_cons, List.foldl_nil, pair]
      rfl
    · simp only [templateBody]
      rw [stringBe_merkleRootHex _ _ (by simp [length_stringBe]),
        stringBe_stringBe _ (by simp), merkleSteps_single, merkleWithFirst,
        List.foldl_cons, List.foldl_nil, pair]
      rfl

/--
With one segregated witness transaction the pool hashes a header that was not
announced.
-/
theorem header_differs_at_segwitTransaction :
    coindCreateTemplate sampleSha256Double sampleCoinb sampleConfig
          sampleCoind 0 (sampleGbt [segwitTransaction]) =
        some (sampleTempl [segwitTransaction]) ∧
      CoinbaseHashed sampleSha256Double (sampleGbt [segwitTransaction]) ∧
        nonceAccepted sampleRequest.nonce = true ∧
          ntimeError sampleConfig (sampleTempl [segwitTransaction]) 0
              sampleRequest.ntime = none ∧
            announcedHeader [] sampleRequest
                (jobMiningNotifyBuffer 1 (sampleTempl [segwitTransaction])) ≠
              some
                (buildSubmitValuesEqui sampleSha256Double
                  (sampleTempl [segwitTransaction]) [] sampleRequest.ntime
                  sampleRequest.nonce sampleRequest.equiSolution).header := by
  have created := sampleTempl_created [segwitTransaction]
  have hashed := coinbaseHashed_sampleGbt [segwitTransaction]
  have timeOk := sampleRequest_ntimeError [segwitTransaction]
  refine ⟨created, hashed, sampleRequest_nonceAccepted, timeOk, ?_⟩
  intro same
  obtain ⟨extradata, ntime, -⟩ := created_fields created
  have form :
      (sampleTempl [segwitTransaction]).extradataHex.length ≠ 128 := by
    rw [extradata, Ne, templateHeader_extradataHex_length_iff]
    simp [sampleGbt]
  have digits : sampleRequest.ntime.length = 8 := by
    decide
  rw [buildSubmitValuesEqui_header,
    announcedHeader_eq_some_iff 1 [] form (created_roots created hashed).1
      sampleRequest_nonceAccepted digits] at same
  have prevhash :
      stringBe (sampleTempl [segwitTransaction]).prevhashHex =
        (sampleTempl [segwitTransaction]).prevhashBe := by
    rcases coindCreateTemplate_cases created with
      ⟨aux, -⟩ | ⟨-, coinbasetxn, coinb1, coinb2, -, -, shape⟩
    · exact absurd aux (by decide)
    · rw [shape]
      rfl
  obtain ⟨submitted, announced⟩ := sampleTempl_segwit_roots
  have roots := same.1
  rw [prevhash, submitted, announced, List.append_cancel_left_eq] at roots
  have digests := congrArg binlify roots
  rw [binlify_hexlify, binlify_hexlify] at digests
  exact absurd digests (by decide)

end Sample

end YiimpStratum.Submit
