import YiimpStratum.Library.Run
import YiimpStratum.Object
import YiimpStratum.Util.Json
import Mathlib.Data.Rat.Defs

/-!
# The job of a remote

`remote->job` points to a job of `g_list_job`.  A notification replaces the
job, `remote_close` gives it up, and the pass of `object_prune` frees the jobs
that are marked deleted.  The coins add and delete jobs of their own, and
submissions lock and unlock jobs.

`remote_create_job` marks the old job before it looks at the number of
parameters.  A notification that is too short leaves the remote with a marked
job, which the next pass frees.

A pointer to a job is its number; numbers are not used twice.  Each function
that a thread calls is one step here.
-/

namespace YiimpStratum.Reference

open YiimpStratum
open YiimpStratum.Util

/-! ## State -/

/-- `YAAMP_JOB`, and whether it is the job of a coin. -/
structure YaampJob extends YaampObject where
  ofCoin : Bool

def YaampJob.setHeader (header : YaampObject) (job : YaampJob) : YaampJob :=
  { job with toYaampObject := header }

/-- A job after its allocation. -/
def YaampJob.allocated (jobid : Nat) (ofCoin : Bool) : YaampJob where
  toYaampObject := { YaampObject.zeroed with id := jobid }
  ofCoin := ofCoin

/-- The job numbers of a client. -/
structure YaampClient where
  jobidLocked : Nat
  jobidNext : Nat

/-- The fields of `YAAMP_REMOTE` on which its job depends. -/
structure YaampRemote where
  deleted : Bool
  /-- `remote_delete` has freed the remote -/
  freed : Bool
  /-- `remote_thread` is in its loop -/
  running : Bool
  connected : Bool
  nonce1 : CString
  nonce2size : Int
  difficultyActual : ℚ
  nonce1Next : CString
  nonce2sizeNext : Int
  difficultyNext : ℚ
  job : Option Nat

structure Server where
  jobs : List YaampJob
  clients : List YaampClient
  nextJobId : Nat
  remote : YaampRemote

/-- A remote that `db_update_remotes` has just allocated. -/
def Server.initial (clients : List YaampClient) : Server where
  jobs := []
  clients := clients
  nextJobId := 0
  remote :=
    { deleted := false
      freed := false
      running := true
      connected := false
      nonce1 := []
      nonce2size := 0
      difficultyActual := 0
      nonce1Next := []
      nonce2sizeNext := 0
      difficultyNext := 0
      job := none }

/-! ## Jobs and clients -/

/-- A change of the header of the jobs that are `chosen`. -/
def changeJobs (chosen : YaampJob → Bool) (change : YaampObject → YaampObject)
    (jobs : List YaampJob) : List YaampJob :=
  jobs.map fun job =>
    if chosen job then job.setHeader (change job.toYaampObject) else job

/-- `object_delete` on a pointer to a job. -/
def deleteJob (pointer : Option Nat) (jobs : List YaampJob) : List YaampJob :=
  changeJobs (fun job => pointer == some job.id) YaampObject.delete jobs

/-- `job_relock_clients` -/
def jobRelockClients (jobidOld jobidNew : Nat) (clients : List YaampClient) :
    List YaampClient :=
  if jobidOld = 0 ∨ jobidNew = 0 then clients
  else
    clients.map fun client =>
      if client.jobidLocked = jobidOld then
        { client with jobidLocked := jobidNew }
      else client

/-- `job_assign_locked_clients`, as far as the clients are concerned. -/
def jobAssignLockedClients (jobid : Nat) (clients : List YaampClient) :
    List YaampClient :=
  clients.map fun client =>
    if client.jobidLocked = jobid then { client with jobidNext := jobid }
    else client

/-! ## The remote -/

/-- `remote_close` -/
def remoteClose (server : Server) : Server :=
  { server with
    jobs := deleteJob server.remote.job server.jobs
    remote :=
      { server.remote with
        difficultyActual := 0, job := none, connected := false } }

/-- `remote_connect` -/
def remoteConnect (succeeds : Bool) (server : Server) : Server :=
  let server :=
    if server.remote.connected then remoteClose server else server
  { server with remote := { server.remote with connected := succeeds } }

/-- `remote_create_job`; of the parameters only their number matters here. -/
def remoteCreateJob (params : List Json) (server : Server) : Server :=
  let jobidOld := server.remote.job.getD 0
  let jobs := deleteJob server.remote.job server.jobs
  if params.length < 8 then { server with jobs := jobs }
  else
    let jobid := server.nextJobId + 1
    { jobs := jobs ++ [YaampJob.allocated jobid false]
      clients := jobRelockClients jobidOld jobid server.clients
      nextJobId := jobid
      remote := { server.remote with job := some jobid } }

/-- The nonces and the difficulty that the notification brings into force. -/
def takeNext (remote : YaampRemote) : YaampRemote :=
  { remote with
    nonce1 := (remote.nonce1Next.take 16).map Char.toLower
    nonce2size := remote.nonce2sizeNext
    difficultyActual := remote.difficultyNext }

/-- The end of the loop of `remote_thread`. -/
def leaveLoop (server : Server) : Server :=
  { server with
    remote := { server.remote with running := false, deleted := true } }

/-- `mining.notify` in `remote_thread`. -/
def notify (params : List Json) (server : Server) : Server :=
  let remote := server.remote
  if remote.nonce1 ≠ remote.nonce1Next ∨
      remote.nonce2size ≠ remote.nonce2sizeNext ∨
        remote.difficultyActual ≠ remote.difficultyNext then
    let server :=
      remoteCreateJob params { server with remote := takeNext remote }
    match server.remote.job with
    | none => leaveLoop server
    | some _ => server
  else
    let server := remoteCreateJob params server
    match server.remote.job with
    | none => leaveLoop server
    | some jobid =>
        { server with
          clients := jobAssignLockedClients jobid server.clients }

/-- `remote_delete`, when `object_prune` comes across the remote. -/
def pruneRemotes (server : Server) : Server :=
  if server.remote.deleted ∧ server.remote.freed = false then
    { server with
      jobs := deleteJob server.remote.job server.jobs
      remote := { server.remote with freed := true } }
  else server

/-- `object_prune` on `g_list_job`. -/
def pruneJobs (jobs : List YaampJob) : List YaampJob :=
  objectPrune YaampJob.toYaampObject YaampJob.setHeader jobs

/-! ## Runs -/

inductive Event where
  | connect (succeeds : Bool)
  | close
  | notify (params : List Json)
  /-- a message that changes the values for the next notification -/
  | setNext (nonce1 : CString) (nonce2size : Int) (difficulty : ℚ)
  /-- the loop of `remote_thread` ends for another reason -/
  | terminate
  | pruneRemotes
  | pruneJobs
  /-- a coin gets a new job -/
  | addCoinJob
  /-- a coin deletes its job -/
  | deleteCoinJob (jobid : Nat)
  | lockJob (jobid : Nat)
  | unlockJob (jobid : Nat)

/-- The remote reads messages. -/
def YaampRemote.reads (remote : YaampRemote) : Bool :=
  remote.running && remote.connected

def step (server : Server) : Event → Server
  | .connect succeeds =>
      if server.remote.running then remoteConnect succeeds server else server
  | .close =>
      if server.remote.running then remoteClose server else server
  | .notify params =>
      if server.remote.reads then notify params server else server
  | .setNext nonce1 nonce2size difficulty =>
      if server.remote.reads then
        { server with
          remote :=
            { server.remote with
              nonce1Next := nonce1.take 16
              nonce2sizeNext := nonce2size
              difficultyNext := difficulty } }
      else server
  | .terminate =>
      if server.remote.running then leaveLoop server else server
  | .pruneRemotes => pruneRemotes server
  | .pruneJobs => { server with jobs := pruneJobs server.jobs }
  | .addCoinJob =>
      { server with
        jobs :=
          server.jobs ++ [YaampJob.allocated (server.nextJobId + 1) true]
        nextJobId := server.nextJobId + 1 }
  | .deleteCoinJob jobid =>
      { server with
        jobs :=
          changeJobs (fun job => job.ofCoin && job.id == jobid)
            YaampObject.delete server.jobs }
  | .lockJob jobid =>
      { server with
        jobs := changeJobs (·.id == jobid) YaampObject.objectLock server.jobs }
  | .unlockJob jobid =>
      { server with
        jobs :=
          changeJobs (·.id == jobid) YaampObject.objectUnlock server.jobs }

/-! ## The reference -/

/-- A job that the list has under this number and that is not marked. -/
def LiveJob (jobs : List YaampJob) (jobid : Nat) : Prop :=
  ∃ job ∈ jobs, job.id = jobid ∧ job.deleted = false

/-- `remote->job` is null or a live job. -/
def ReferenceValid (server : Server) : Prop :=
  server.remote.freed = false →
    ∀ jobid, server.remote.job = some jobid → LiveJob server.jobs jobid

/--
The job of the remote, its mark and the clients that are locked to it are
after the event what they were.
-/
def LeavesJob (server : Server) (event : Event) : Prop :=
  (step server event).remote.job = server.remote.job ∧
    (∀ jobid, server.remote.job = some jobid →
      (LiveJob (step server event).jobs jobid ↔
        LiveJob server.jobs jobid)) ∧
    (step server event).clients.map YaampClient.jobidLocked =
      server.clients.map YaampClient.jobidLocked

/--
The reference is valid in every state of the run, and every notification that
is too short leaves the job alone.
-/
def ReferenceKept (start : Server) (events : List Event) : Prop :=
  (∀ reached, reached <+: events →
    ReferenceValid (Run.after step start reached)) ∧
    ∀ reached params, reached ++ [.notify params] <+: events →
      params.length < 8 →
        LeavesJob (Run.after step start reached) (.notify params)

/-- A notification that is too short comes while the remote has no job. -/
def Careful (server : Server) : Event → Prop
  | .notify params =>
      params.length < 8 → server.remote.reads = true →
        server.remote.job = none
  | _ => True

end YiimpStratum.Reference
