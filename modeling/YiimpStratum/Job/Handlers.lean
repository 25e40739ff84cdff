import YiimpStratum.Library.Run
import YiimpStratum.Object

/-!
# Jobs, coins and the handlers that use them

The threads of the server share the jobs of `g_list_job` and the coins of
`g_list_coind`.  The submit handlers and `job_send_jobid` take a lock on their
job; `job_send_last` uses the job that it found without one.  Other threads
create jobs, mark jobs and coins as deleted and free the marked ones.

A pointer is the number of an object: jobs are numbered by `job_get_jobid`,
coins in the order in which they are loaded.  An object is freed when it leaves
its list, and the template of a job is freed with the job.  The outcome of a
check on a request is an input of the step that makes it.  Each change of a
lock count is one step.
-/

namespace YiimpStratum.Job

/-! ## Handlers -/

inductive SubmitFunction where
  | clientSubmit
  | clientSubmitEqui
  deriving DecidableEq

/-- The number and the text that a failed check answers. -/
abbrev Check := Nat × String

/-- The checks of `client_submit` after the one on `job->deleted`. -/
def clientSubmitChecks : List Check :=
  [(20, "Invalid nonce size"), (23, "Invalid time rolling"),
    (23, "Invalid ntime (rolling not allowed)"), (22, "Duplicate share"),
    (24, "Invalid extranonce2 size"), (27, "Invalid extranonce2 suffix"),
    (27, "Invalid extranonce2 suffix"), (27, "Invalid nonce2"),
    (25, "Invalid share"), (26, "Low difficulty share")]

/-- The checks of `client_submit_equi` after the one on `job->deleted`. -/
def clientSubmitEquiChecks : List Check :=
  [(20, "Invalid nonce size"), (23, "Invalid time rolling"),
    (23, "Invalid ntime (rolling not allowed)"), (22, "Duplicate share"),
    (25, "Invalid equihash solution"), (26, "Low difficulty share")]

/--
Where the handler of a thread stands, with the job that it points to.

The first group belongs to the submit handlers and `job_send_jobid`: the check
on `job->deleted`, the test for Decred, the other checks, then
`client_submit_error` or the stages of `client_do_submit`, `share_add` and the
unlocking.  The second group belongs to `job_get_last` and `job_send_last`;
`again` tells that a search for any coin follows one for the user's coin.
-/
inductive Position where
  | idle
  | found (function : SubmitFunction) (job : Nat)
  | decred (job : Nat)
  | checking (job : Nat) (checks : List Check)
  | error (job : Nat) (check : Check)
  | accepted (job : Nat)
  | auxs (job : Nat)
  | submitting (job : Nat)
  | confirming (job : Nat)
  | recording (job : Nat)
  | sending (job : Nat)
  | unlocking (job : Nat)
  | getLast (again : Bool)
  | scanning (again : Bool) (jobs : List Nat)
  | visiting (again : Bool) (job : Nat) (jobs : List Nat)
  | last (job : Nat)
  deriving DecidableEq

namespace Position

/-- Where a submit function goes on with a job that is not deleted. -/
def live (job : Nat) : SubmitFunction → Position
  | .clientSubmit => .decred job
  | .clientSubmitEqui => .checking job clientSubmitEquiChecks

/-- The job that the handler has found with lock and not yet unlocked. -/
def holds : Position → Option Nat
  | .found _ job | .decred job | .checking job _ | .error job _
  | .accepted job | .auxs job | .submitting job | .confirming job
  | .recording job | .sending job | .unlocking job => some job
  | .idle | .getLast _ | .scanning _ _ | .visiting _ _ _ | .last _ => none

/-- The handler is inside `job_get_last` and has entered `g_list_job`. -/
def inList : Position → Bool
  | .scanning _ _ | .visiting _ _ _ => true
  | _ => false

/-- The job that the next step reads, or whose template it reads. -/
def readsJob : Position → Option Nat
  | .found _ job | .decred job | .checking job _ | .error job _
  | .accepted job | .auxs job | .submitting job | .confirming job
  | .recording job | .sending job | .unlocking job => some job
  | .scanning _ (job :: _) | .visiting _ job _ | .last job => some job
  | .idle | .getLast _ | .scanning _ [] => none

/-- The job whose coin the next step reads, when the job has a coin. -/
def readsCoind : Position → Option Nat
  | .decred job | .auxs job | .submitting job | .confirming job
  | .recording job | .visiting _ job _ => some job
  | _ => none

end Position

/-! ## The server -/

/-- `YAAMP_JOB`; a rented job has no coin. -/
structure YaampJob extends YaampObject where
  coind : Option Nat
  deriving DecidableEq

namespace YaampJob

def setHeader (header : YaampObject) (job : YaampJob) : YaampJob :=
  { job with toYaampObject := header }

/-- A job after its allocation, with its number and its coin. -/
def create (id : Nat) (coind : Option Nat) : YaampJob where
  toYaampObject := { YaampObject.zeroed with id := id }
  coind := coind

end YaampJob

/-- `YAAMP_COIND` -/
structure YaampCoind extends YaampObject where
  job : Option Nat
  deriving DecidableEq

namespace YaampCoind

def setHeader (header : YaampObject) (coind : YaampCoind) : YaampCoind :=
  { coind with toYaampObject := header }

end YaampCoind

/-- The lists `g_list_job` and `g_list_coind`, and the threads. -/
structure Server where
  jobs : List YaampJob
  coinds : List YaampCoind
  threads : List Position
  nextJobId : Nat
  nextCoind : Nat
  deriving DecidableEq

/-- The server at its start. -/
def Server.initial : Server where
  jobs := []
  coinds := []
  threads := []
  nextJobId := 0
  nextCoind := 0

/-- Changes the header of the job with this number. -/
def modifyJob (change : YaampObject → YaampObject) (id : Nat)
    (jobs : List YaampJob) : List YaampJob :=
  jobs.map fun job =>
    if job.id = id then job.setHeader (change job.toYaampObject) else job

/-- Changes the coin with this number. -/
def modifyCoind (change : YaampCoind → YaampCoind) (id : Nat)
    (coinds : List YaampCoind) : List YaampCoind :=
  coinds.map fun coind => if coind.id = id then change coind else coind

/-- `object_delete` on the job that a coin points to. -/
def deleteCoindJob (coind : YaampCoind) (jobs : List YaampJob) :
    List YaampJob :=
  match coind.job with
  | some id => modifyJob YaampObject.delete id jobs
  | none => jobs

namespace Server

variable (server : Server)

/-- `object_find` on the list of jobs. -/
def jobFind (id : Nat) : Option YaampJob :=
  objectFind YaampJob.toYaampObject server.jobs id

/-- The field `deleted` of a job. -/
def jobDeleted (id : Nat) : Bool :=
  (server.jobFind id).any fun job => job.deleted

/-- The job has a coin. -/
def hasCoind (id : Nat) : Bool :=
  (server.jobFind id).any fun job => job.coind.isSome

/-- A thread is inside `g_list_job`, which the others wait for. -/
def listEntered : Bool :=
  server.threads.any Position.inList

/-! ## Steps of a handler -/

/-- The next position of a handler; `passed` is the outcome of its check. -/
def next (passed : Bool) : Position → Position
  | .idle => .idle
  | .found function job =>
      if server.jobDeleted job then .unlocking job
      else Position.live job function
  | .decred job => .checking job clientSubmitChecks
  | .checking job [] => .accepted job
  | .checking job (check :: checks) =>
      if passed then .checking job checks else .error job check
  | .error job _ =>
      -- The error is recorded by `share_add` unless the job is deleted.
      if server.jobDeleted job then .unlocking job else .recording job
  | .accepted job =>
      -- `client_do_submit` returns at `block_found` and at `deleted`.
      if server.hasCoind job && !server.jobDeleted job && passed then
        .auxs job
      else .recording job
  | .auxs job => if passed then .submitting job else .recording job
  | .submitting job => if passed then .confirming job else .recording job
  | .confirming job => .recording job
  | .recording job => .unlocking job
  | .sending job => .unlocking job
  | .unlocking _ => .idle
  | .getLast again =>
      if server.listEntered then .getLast again
      else .scanning again (server.jobs.map fun job => job.id)
  | .scanning again [] => if again then .getLast false else .idle
  | .scanning again (job :: jobs) =>
      if server.jobDeleted job then .scanning again jobs
      else .visiting again job jobs
  | .visiting again job jobs =>
      if passed && server.hasCoind job then .last job
      else .scanning again jobs
  | .last _ => .idle

def setThread (i : Nat) (position : Position) : Server :=
  { server with threads := server.threads.set i position }

/-- The job list after a step of a handler at this position. -/
def jobsAfter : Position → List YaampJob
  | .unlocking job => modifyJob YaampObject.objectUnlock job server.jobs
  | _ => server.jobs

/-- A thread makes the next step of its handler. -/
def proceed (i : Nat) (passed : Bool) : Server :=
  match server.threads[i]? with
  | none => server
  | some position =>
      { server.setThread i (server.next passed position) with
        jobs := server.jobsAfter position }

/-- `object_find` with lock, by an idle thread, and where it leads. -/
def findLocked (i jobid : Nat) (found missing : Position) : Server :=
  if server.threads[i]? = some .idle ∧ server.listEntered = false then
    if (server.jobFind jobid).isSome then
      { server.setThread i found with
        jobs := modifyJob YaampObject.objectLock jobid server.jobs }
    else
      server.setThread i missing
  else
    server

/-! ## Steps of other threads -/

/-- `coind_create_job` on a listed coin. -/
def coindCreateJob (coind : Nat) : Server :=
  match objectFind YaampCoind.toYaampObject server.coinds coind with
  | none => server
  | some found =>
      if server.listEntered then server
      else
        let id := server.nextJobId + 1
        { server with
          jobs :=
            deleteCoindJob found server.jobs ++
              [YaampJob.create id (some coind)]
          coinds :=
            modifyCoind (fun coind => { coind with job := some id }) coind
              server.coinds
          nextJobId := id }

/-- `remote_create_job`, after the deletion of the old job. -/
def remoteCreateJob : Server :=
  if server.listEntered then server
  else
    { server with
      jobs := server.jobs ++ [YaampJob.create (server.nextJobId + 1) none]
      nextJobId := server.nextJobId + 1 }

/-- A coin is added to `g_list_coind`. -/
def loadCoind : Server :=
  { server with
    coinds :=
      server.coinds ++
        [{ toYaampObject :=
             { YaampObject.zeroed with id := server.nextCoind }
           job := none }]
    nextCoind := server.nextCoind + 1 }

/-- `object_prune` on the list of jobs. -/
def pruneJobs : Server :=
  if server.listEntered then server
  else
    { server with
      jobs :=
        objectPrune YaampJob.toYaampObject YaampJob.setHeader server.jobs }

/-- `object_prune` on the list of coins, with `coind_delete`. -/
def pruneCoinds : Server :=
  { server with
    jobs :=
      (server.coinds.filter fun coind => coind.prunable).foldr deleteCoindJob
        server.jobs
    coinds :=
      objectPrune YaampCoind.toYaampObject YaampCoind.setHeader
        server.coinds }

end Server

/-- A step of one of the threads. -/
inductive Action where
  | connect
  | submit (i : Nat) (function : SubmitFunction) (jobid : Nat)
  | jobSendJobid (i jobid : Nat) (again : Bool)
  | jobSendLast (i : Nat) (again : Bool)
  | proceed (i : Nat) (passed : Bool)
  | coindCreateJob (coind : Nat)
  | remoteCreateJob
  | deleteJob (jobid : Nat)
  | loadCoind
  | deleteCoind (coind : Nat)
  | pruneJobs
  | pruneCoinds
  deriving DecidableEq

def step (server : Server) : Action → Server
  | .connect => { server with threads := server.threads ++ [.idle] }
  | .submit i function jobid =>
      server.findLocked i jobid (.found function jobid) .idle
  | .jobSendJobid i jobid again =>
      server.findLocked i jobid (.sending jobid) (.getLast again)
  | .jobSendLast i again =>
      if server.threads[i]? = some .idle then
        server.setThread i (.getLast again)
      else server
  | .proceed i passed => server.proceed i passed
  | .coindCreateJob coind => server.coindCreateJob coind
  | .remoteCreateJob => server.remoteCreateJob
  | .deleteJob jobid =>
      { server with
        jobs := modifyJob YaampObject.delete jobid server.jobs }
  | .loadCoind => server.loadCoind
  | .deleteCoind coind =>
      { server with
        coinds :=
          modifyCoind
            (fun coind => coind.setHeader coind.toYaampObject.delete) coind
            server.coinds }
  | .pruneJobs => server.pruneJobs
  | .pruneCoinds => server.pruneCoinds

end YiimpStratum.Job
