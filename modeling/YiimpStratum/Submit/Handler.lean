import YiimpStratum.Equihash.Verify
import YiimpStratum.Share
import YiimpStratum.Submit.Values

/-!
# Jobs and the submission handler

The server as the submission path sees it: the list of jobs, the list of
shares and the number of the last job.  `coind_create_job` and
`client_submit_equi` are functions on this state.

The handler is one step here, so the lock it takes on a job is released within
the step.  It hands blocks to the daemon on the way, which changes neither
list.  Clients have the nonce prefix that the server gave them, or none before
they subscribed; there are no rented jobs.
-/

namespace YiimpStratum.Submit

open YiimpStratum
open YiimpStratum.Util
open YiimpStratum.Template
open YiimpStratum.Equihash

/-! ## State -/

/-- What the server takes from libraries, configuration and `coinbase.cpp`. -/
structure Environment where
  sha256Double : Sha256Double
  blake2b : Blake2b
  coinbaseCreate : YaampCoind → YaampJobTemplate → CString × CString
  config : Config

/-- The string `extranonce1` of a client. -/
structure Extranonce1 where
  text : CString
  wellFormed : text = [] ∨ text.length = 8 ∧ LowerHex text

/-- The fields of `YAAMP_CLIENT` that the handler reads. -/
structure YaampClient where
  extranonce1 : Extranonce1
  difficultyActual : ℚ

/-- `YAAMP_JOB` -/
structure YaampJob extends YaampObject where
  templ : YaampJobTemplate

namespace YaampJob

/-- `object_delete` on a job. -/
def delete (job : YaampJob) : YaampJob :=
  { job with toYaampObject := job.toYaampObject.delete }

def setHeader (header : YaampObject) (job : YaampJob) : YaampJob :=
  { job with toYaampObject := header }

end YaampJob

/-- The lists `g_list_job` and `g_list_share`, and the jobs of the coins. -/
structure Server where
  jobs : List YaampJob
  shares : List YaampShare
  nextJobId : Nat
  coindJob : Nat → Option Nat

/-- The server at its start. -/
def Server.initial : Server where
  jobs := []
  shares := []
  nextJobId := 0
  coindJob := fun _ => none

/-! ## Jobs -/

/-- `object_find` on the list of jobs. -/
def jobFind (jobs : List YaampJob) (id : Nat) : Option YaampJob :=
  objectFind YaampJob.toYaampObject jobs id

/-- `object_delete` on the listed job with this number. -/
def jobDelete (jobs : List YaampJob) (id : Nat) : List YaampJob :=
  jobs.map fun job => if job.id = id then job.delete else job

/-- `object_prune` on the list of jobs. -/
def pruneJobs (jobs : List YaampJob) : List YaampJob :=
  objectPrune YaampJob.toYaampObject YaampJob.setHeader jobs

/-- The new template repeats the one of the last job. -/
def sameTemplate (now : Int) (templ : YaampJobTemplate) (last : YaampJob) :
    Bool :=
  decide (now < last.templ.created + 45) &&
    templ.height == last.templ.height &&
      templ.txcount == last.templ.txcount &&
        templ.coinb2 == last.templ.coinb2

section Definitions

variable (env : Environment)

/-- `coind_create_job`, with the daemon connected. -/
def coindCreateJob
    (server : Server) (coind : YaampCoind) (force : Bool) (now : Int)
    (gbt : GetBlockTemplate) : Server :=
  match
    coindCreateTemplate env.sha256Double (env.coinbaseCreate coind)
      env.config coind now gbt
  with
  | none => server
  | some templ =>
      let jobLast :=
        (server.coindJob coind.id).bind (jobFind server.jobs)
      if !force && jobLast.any (sameTemplate now templ) then
        server
      else
        let jobs :=
          match server.coindJob coind.id with
          | some last => jobDelete server.jobs last
          | none => server.jobs
        let jobid := server.nextJobId + 1
        { server with
          jobs :=
            jobs ++
              [{ toYaampObject := { YaampObject.zeroed with id := jobid }
                 templ := templ }]
          nextJobId := jobid
          coindJob := Function.update server.coindJob coind.id (some jobid) }

/-! ## The checks of the handler -/

/-- The variable `submitvalues`. -/
def submitvalues
    (templ : YaampJobTemplate) (client : YaampClient)
    (request : SubmitRequest) : YaampJobValues :=
  buildSubmitValuesEqui env.sha256Double templ client.extranonce1.text
    request.ntime request.nonce request.equiSolution

/-- The header bytes that `verifyEH` reads at `EH_hdr`. -/
def ehHdr (headerBin : Vector UInt8 equiHeaderSize) : HeaderBytes :=
  Vector.ofFn fun i =>
    headerBin.get ⟨i, Nat.lt_of_lt_of_le i.isLt (by decide)⟩

/-- The solution bytes that `verifyEH` reads at `EH_sln`. -/
def ehSln (headerBin : Vector UInt8 equiHeaderSize) : SolutionBytes :=
  Vector.ofFn fun i =>
    headerBin.get
      ⟨143 + i,
        Nat.lt_of_lt_of_le (Nat.add_lt_add_left i.isLt 143) (by decide)⟩

/-- The variable `bits`, read from the string `nbits`. -/
def bitsOfNbits (nbits : CString) : Nat :=
  littleEndian (binlify (stringBe nbits))

/-- The test of the comparison value against both targets. -/
def lowDifficulty
    (client : YaampClient) (templ : YaampJobTemplate) (hashBin : Bytes32) :
    Bool :=
  decide
      (diffToTarget equihashDiffMultiplier client.difficultyActual <
        hashInt hashBin) &&
    decide (coinTarget (bitsOfNbits templ.nbits) < hashInt hashBin)

/-- The duplicate check. -/
def isDuplicate
    (server : Server) (job : YaampJob) (client : YaampClient)
    (request : SubmitRequest) : Bool :=
  (shareFind server.shares job.id [] request.ntime request.nonce
    client.extranonce1.text).isSome

/-- The error that the checks on a submission to a live job lead to. -/
def rejection
    (server : Server) (job : YaampJob) (client : YaampClient) (now : Int)
    (request : SubmitRequest) : Option (Nat × String) :=
  if !nonceAccepted request.nonce then
    some (20, "Invalid nonce size")
  else
    match ntimeError env.config job.templ now request.ntime with
    | some message => some (23, message)
    | none =>
        if isDuplicate server job client request then
          some (22, "Duplicate share")
        else
          let values := submitvalues env job.templ client request
          if !verifyEH env.blake2b (ehHdr values.headerBin)
              (ehSln values.headerBin) then
            some (25, "Invalid equihash solution")
          else if lowDifficulty client job.templ values.hashBin then
            some (26, "Low difficulty share")
          else
            none

/-! ## The handler -/

/-- What the handler sends to the miner. -/
inductive Reply where
  | result
  | error (number : Nat) (message : String)
  deriving DecidableEq

/-- The reply, and the arguments `job` and `valid` of `share_add`. -/
structure Outcome where
  reply : Reply
  recorded : Option (Nat × Bool)

/-- `share_add` for a submission. -/
def recordShare
    (server : Server) (jobid : Nat) (client : YaampClient)
    (request : SubmitRequest) : Server :=
  { server with
    shares :=
      shareAdd server.shares jobid [] request.ntime request.nonce
        client.extranonce1.text }

/-- `client_submit_error` -/
def clientSubmitError
    (server : Server) (job : Option YaampJob) (client : YaampClient)
    (request : SubmitRequest) (number : Nat) (message : String) :
    Server × Outcome :=
  if job.any (fun job => job.deleted) then
    (server, { reply := .result, recorded := none })
  else
    let jobid := (job.map fun job => job.id).getD 0
    (recordShare server jobid client request,
      { reply := .error number message
        recorded := some (jobid, false) })

/-- `client_submit_equi`, after the parameters were copied. -/
def clientSubmitEqui
    (server : Server) (client : YaampClient) (now : Int)
    (request : SubmitRequest) : Server × Outcome :=
  match jobFind server.jobs (htoi request.jobidParam) with
  | none => clientSubmitError server none client request 21 "Invalid job id"
  | some job =>
      if job.deleted then
        (server, { reply := .result, recorded := none })
      else
        match rejection env server job client now request with
        | some (number, message) =>
            clientSubmitError server (some job) client request number message
        | none =>
            (recordShare server job.id client request,
              { reply := .result
                recorded := some (job.id, true) })

end Definitions

/-- The parameters of a request; `none` when it is answered at once. -/
def submitRequest? : List CString → Option SubmitRequest
  | _ :: jobid :: ntime :: nonce :: equiSolution :: _ =>
      if 32 < jobid.length then none
      else
        some
          { jobidParam := jobid
            ntimeParam := ntime
            nonceParam := nonce
            equiSolutionParam := equiSolution }
  | _ => none

end YiimpStratum.Submit
