import YiimpStratum.Share
import YiimpStratum.Submit.Values
import YiimpStratum.Util.HexText

/-!
# Submissions to Decred jobs

`client_submit` with the checks that it makes on a submission, and the header
that `create_decred_header` builds for a job whose coin has the encoding `DCR`.

The hash function of the algorithm is a parameter, and so is the hash that a
submission to another job has.  The extranonce and the difficulty of a client
change between its requests and come with each of them.  The handler is one
step, so the lock that it takes on a job is released within the step.
-/

namespace YiimpStratum.Decred

open YiimpStratum
open YiimpStratum.Util

/-! ## The header -/

/-- The 180 bytes of a block header, by its fields. -/
structure BlockHeader where
  version : UInt32
  prevblock : Vector UInt8 32
  merkleroot : Vector UInt8 32
  stakeroot : Vector UInt8 32
  votebits : UInt16
  finalstate : Vector UInt8 6
  voters : UInt16
  freshstake : UInt8
  revoc : UInt8
  poolsize : UInt32
  nbits : UInt32
  sbits : UInt64
  height : UInt32
  size : UInt32
  ntime : UInt32
  nonce : UInt32
  extra : Vector UInt8 32
  stakever : UInt32

/-- The bytes of a number in memory. -/
def numberBytes (width number : Nat) : List UInt8 :=
  (BigEndian.encode width number).reverse

namespace BlockHeader

variable (header : BlockHeader)

/-- The fields before the nonce. -/
def front : List UInt8 :=
  numberBytes 4 header.version.toNat ++ header.prevblock.toList ++
    header.merkleroot.toList ++ header.stakeroot.toList ++
      numberBytes 2 header.votebits.toNat ++ header.finalstate.toList ++
        numberBytes 2 header.voters.toNat ++
          [header.freshstake, header.revoc] ++
            numberBytes 4 header.poolsize.toNat ++
              numberBytes 4 header.nbits.toNat ++
                numberBytes 8 header.sbits.toNat ++
                  numberBytes 4 header.height.toNat ++
                    numberBytes 4 header.size.toNat ++
                      numberBytes 4 header.ntime.toNat

/-- The bytes that are hashed. -/
def bytes : List UInt8 :=
  header.front ++
    (numberBytes 4 header.nonce.toNat ++
      (header.extra.toList ++ numberBytes 4 header.stakever.toNat))

end BlockHeader

/-- The fields of `YAAMP_JOB_TEMPLATE` that the handler reads. -/
structure YaampJobTemplate where
  ntime : CString
  nbits : CString
  header : BlockHeader

/-- The votebits after `sscanf` with `%04hx`. -/
def voteBits (vote : CString) (votebits : UInt16) : UInt16 :=
  if vote = [] then votebits
  else
    votebits &&& 1 |||
      UInt16.ofInt ((scanHex 4 vote).getD 0) &&& 0xfffe

/-- `create_decred_header`; the time of the submission is not used. -/
def createDecredHeader (templ : YaampJobTemplate)
    (nonce nonce2 vote : CString) : BlockHeader :=
  { templ.header with
    nonce :=
      match scanHex 8 nonce with
      | none => templ.header.nonce
      | some number => UInt32.ofInt number
    votebits := voteBits vote templ.header.votebits
    extra := Vector.ofFn fun i => (binlify nonce2).getD i 0 }

/-! ## State -/

/-- `YAAMP_JOB`, with the encoding of its coin if it has one. -/
structure YaampJob extends YaampObject where
  rpcencoding : Option CString
  templ : YaampJobTemplate

namespace YaampJob

/-- The variable `is_decred`. -/
def isDecred (job : YaampJob) : Bool :=
  job.rpcencoding == some ['D', 'C', 'R']

/-- `object_delete` on a job. -/
def delete (job : YaampJob) : YaampJob :=
  { job with toYaampObject := job.toYaampObject.delete }

def setHeader (header : YaampObject) (job : YaampJob) : YaampJob :=
  { job with toYaampObject := header }

end YaampJob

/-- The fields of `YAAMP_CLIENT` that the handler reads. -/
structure YaampClient where
  extranonce1 : CString
  extranonce2size : Int
  difficultyActual : ℚ

/-- The variables that `client_submit` copies its parameters to. -/
structure SubmitRequest where
  jobid : Nat
  extranonce2 : CString
  ntime : CString
  nonce : CString
  vote : CString

/-- The algorithm and the settings. -/
structure Environment where
  hashFunction : List UInt8 → Bytes32
  /-- the hash of a submission to a job without this header -/
  buildSubmitValues :
    YaampJobTemplate → CString → CString → CString → CString → Bytes32
  diffMultiplier : ℚ
  allowRolltime : Bool
  /-- the name of the algorithm has `phi` in it -/
  isPhi : Bool

/-- The lists `g_list_job` and `g_list_share`. -/
structure Server where
  jobs : List YaampJob
  shares : List YaampShare
  nextJobId : Nat

/-! ## The checks of the handler -/

/-- `get_hash_difficulty`: the bytes 22 to 29 as a number. -/
def getHashDifficulty (hash : Bytes32) : Nat :=
  littleEndian ((hash.toList.drop 22).take 8)

/-- The variable `pfx`: the bytes 30 and 31 joined. -/
def hashPrefix (hash : Bytes32) : UInt8 :=
  (hash.toList.drop 30).foldl (fun pfx byte => pfx ||| byte) 0

/-- `decode_compact` -/
def decodeCompact (input : CString) : Nat :=
  let c := htoi64 input
  let nShift := (c >>> 24) &&& 0xff
  let d : ℚ := 0x0000ffff / ((c &&& 0x00ffffff : Nat) : ℚ)
  let raised := (fun d : ℚ => d * 256)^[29 - nShift] d
  truncate (0x0000ffff00000000 / (fun d : ℚ => d / 256)^[nShift - 29] raised)

/-- The variable `coin_target`. -/
def coinTarget (templ : YaampJobTemplate) : Nat :=
  let target := decodeCompact templ.nbits
  if target = 0 then 0xFFFF000000000000 else target

/-- `YAAMP_NONCE_SIZE` -/
abbrev yaampNonceSize : Nat := 4

section Definitions

variable (env : Environment)

/-- The error of the time check, if any. -/
def ntimeError (templ : YaampJobTemplate) (now : Int) (ntime : CString) :
    Option String :=
  if ntime = templ.ntime then none
  else if !ishexa ntime 8 || !Submit.ntimeValidRange now ntime then
    some "Invalid time rolling"
  else if !env.allowRolltime then some "Invalid ntime (rolling not allowed)"
  else none

/-- The variable `extranull`. -/
def extranull (client : YaampClient) (extranonce2 extra2Id : CString) : Bool :=
  if extra2Id == List.replicate 8 '0' && decide (8 < client.extranonce2size)
  then extranonce2.drop 8 == List.replicate 16 '0'
  else extra2Id == List.replicate 8 '0'

/-- The error of the checks on the extranonce, if any. -/
def extranonceError (job : YaampJob) (client : YaampClient)
    (extranonce2 : CString) : Option (Nat × String) :=
  if (extranonce2.length : Int) ≠ client.extranonce2size * 2 then
    some (24, "Invalid extranonce2 size")
  else if job.isDecred && decide (4 < client.extranonce2size) then
    let cmpoft := (client.extranonce2size * 2 - 8).toNat
    let extra1Id := client.extranonce1.drop cmpoft
    let extra2Id := extranonce2.drop cmpoft
    if extranull client extranonce2 extra2Id || extra2Id != extra1Id then
      some (27, "Invalid extranonce2 suffix")
    else none
  else if !ishexa extranonce2 (client.extranonce2size * 2).toNat then
    some (27, "Invalid nonce2")
  else none

/-- The header of a submission to a Decred job. -/
def decredHeader (job : YaampJob) (request : SubmitRequest) : BlockHeader :=
  createDecredHeader job.templ request.nonce request.extranonce2 request.vote

/-- The variable `hash_bin`. -/
def hashBin (job : YaampJob) (client : YaampClient)
    (request : SubmitRequest) : Bytes32 :=
  if job.isDecred then env.hashFunction (decredHeader job request).bytes
  else
    env.buildSubmitValues job.templ client.extranonce1 request.extranonce2
      request.ntime request.nonce

/-- The error of the tests on the hash, if any. -/
def hashError (job : YaampJob) (client : YaampClient) (hash : Bytes32) :
    Option (Nat × String) :=
  if hashPrefix hash ≠ 0 then some (25, "Invalid share")
  else if diffToTarget env.diffMultiplier client.difficultyActual <
        getHashDifficulty hash ∧
      coinTarget job.templ < getHashDifficulty hash then
    some (26, "Low difficulty share")
  else none

/-- The duplicate check. -/
def isDuplicate (server : Server) (job : YaampJob) (client : YaampClient)
    (request : SubmitRequest) : Bool :=
  (shareFind server.shares job.id request.extranonce2 request.ntime
    request.nonce client.extranonce1).isSome

/-- The check on the nonce. -/
def nonceAccepted (nonce : CString) : Bool :=
  nonce.length == yaampNonceSize * 2 && ishexa nonce (yaampNonceSize * 2)

/-- The error that the checks on a submission to a live job lead to. -/
def rejection (server : Server) (job : YaampJob) (client : YaampClient)
    (now : Int) (request : SubmitRequest) : Option (Nat × String) :=
  if !nonceAccepted request.nonce then some (20, "Invalid nonce size")
  else
    match ntimeError env job.templ now request.ntime with
    | some message => some (23, message)
    | none =>
        if isDuplicate server job client request then
          some (22, "Duplicate share")
        else
          (extranonceError job client request.extranonce2).or
            (hashError env job client (hashBin env job client request))

/-! ## The handler -/

/-- The parameters of a request; `none` when it is answered at once. -/
def submitRequest? : List CString → Option SubmitRequest
  | _ :: jobid :: extranonce2 :: ntime :: nonce :: rest =>
      if 32 < jobid.length then none
      else
        some
          { jobid := htoi jobid
            extranonce2 := stringLower (extranonce2.take 31)
            ntime := stringLower (ntime.take 31)
            nonce := stringLower (nonce.take 31)
            vote :=
              match rest with
              | [vote] => if env.isPhi then [] else stringLower (vote.take 7)
              | _ => [] }
  | _ => none

/-- `object_find` on the list of jobs. -/
def jobFind (jobs : List YaampJob) (id : Nat) : Option YaampJob :=
  objectFind YaampJob.toYaampObject jobs id

/-- `share_add` for a submission. -/
def recordShare (server : Server) (jobid : Nat) (client : YaampClient)
    (request : SubmitRequest) : Server :=
  { server with
    shares :=
      shareAdd server.shares jobid request.extranonce2 request.ntime
        request.nonce client.extranonce1 }

/-- The job under which a submission is credited. -/
def creditedJob (server : Server) (client : YaampClient) (now : Int)
    (request : SubmitRequest) : Option YaampJob :=
  (jobFind server.jobs request.jobid).filter fun job =>
    !job.deleted && (rejection env server job client now request).isNone

/--
`client_submit`, after the parameters were copied: a share is added unless the
job is deleted, under the number zero when there is no job.
-/
def clientSubmit (server : Server) (client : YaampClient)
    (request : SubmitRequest) : Server :=
  match jobFind server.jobs request.jobid with
  | none => recordShare server 0 client request
  | some job =>
      if job.deleted then server
      else recordShare server job.id client request

end Definitions

end YiimpStratum.Decred
