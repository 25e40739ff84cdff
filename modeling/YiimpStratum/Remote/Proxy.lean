import YiimpStratum.Assign.Clients

/-!
# Proxied jobs

`remote_thread` follows an upstream server: a `mining.notify` replaces the job
of the remote, a `mining.set_extranonce` changes its nonce from the next
notification on.  `job_assign_client` gives the nonces of the remote to its
clients, and `remote_submit` forwards their shares.

The threads and the messages on their way interleave in any order.  A
notification is handled in four steps: the job id, the nonces, the new job, and
the clients locked to it.  A submission is handled in two: the coinbase, and
the message to the upstream server.  For every message the state keeps the
coinbase that the upstream server rebuilds and the one that was hashed.
-/

namespace YiimpStratum.Remote

open YiimpStratum.Util
open YiimpStratum.Assign
  (Action Config Server Source Subid YaampClient YaampJob)

/-! ## The upstream server -/

/--
The parameters of `mining.notify` that the coinbase depends on; `complete`
tells that the message has all the eight that `remote_create_job` asks for.
-/
structure Notify where
  jobid : CString
  coinb1 : CString
  coinb2 : CString
  complete : Bool
  deriving DecidableEq

/-- A message of the upstream server. -/
inductive Message where
  | subscribed (nonce1 : CString) (nonce2size : Int)
  | authorized
  | setDifficulty (difficulty : Rat)
  | setExtranonce (nonce1 : CString) (nonce2size : Int)
  | notify (notify : Notify)
  | reconnect

/-- The job id that a message announces. -/
def Message.jobid : Message → Option CString
  | .notify announced => some announced.jobid
  | _ => none

/-- A job as the upstream server knows it, with the extranonce1 in force. -/
structure UpstreamJob where
  jobid : CString
  nonce1 : CString
  coinb1 : CString
  coinb2 : CString
  deriving DecidableEq

/--
The other end of a connection: the extranonce1 that it last gave, its jobs with
the newest first, and the messages that `remote_thread` has not read yet.
-/
structure Upstream where
  nonce1 : Option CString
  jobs : List UpstreamJob
  inbox : List Message

namespace Upstream

/-- A new connection. -/
def connected : Upstream where
  nonce1 := none
  jobs := []
  inbox := []

/-- What the upstream server remembers of a message that it sends. -/
def announce (upstream : Upstream) : Message → Upstream
  | .subscribed nonce1 _ => { upstream with nonce1 := some nonce1 }
  | .setExtranonce nonce1 _ => { upstream with nonce1 := some nonce1 }
  | .notify notify =>
      { upstream with
        jobs :=
          { jobid := notify.jobid
            nonce1 := upstream.nonce1.getD []
            coinb1 := notify.coinb1
            coinb2 := notify.coinb2 } :: upstream.jobs }
  | _ => upstream

def send (upstream : Upstream) (message : Message) : Upstream :=
  { upstream.announce message with inbox := upstream.inbox ++ [message] }

/-- The job that the upstream server finds by its id. -/
def findJob (upstream : Upstream) (jobid : CString) : Option UpstreamJob :=
  upstream.jobs.find? fun job => job.jobid == jobid

/-- The coinbase of a share in the eyes of the upstream server. -/
def rebuild (upstream : Upstream) (jobid extranonce2 : CString) :
    Option CString :=
  (upstream.findJob jobid).map fun job =>
    job.coinb1 ++ job.nonce1 ++ extranonce2 ++ job.coinb2

end Upstream

/-! ## The remote -/

/-- The values of `remote->status`. -/
inductive Status where
  | closed
  | subscribe
  | authorize
  | extranonce
  | ready
  | reset
  | terminate
  deriving DecidableEq

/-- How far `remote_thread` is with the message that it read. -/
inductive Position where
  | reading
  | named (notify : Notify)
  | nonced (notify : Notify) (changed : Bool)
  | created
  deriving DecidableEq

/-- A new job id is in force, and the job of the remote is still the old one. -/
def Position.betweenJobs : Position → Bool
  | .named _ => true
  | .nonced _ _ => true
  | _ => false

/-- The fields of `YAAMP_REMOTE` that proxying needs; job zero is no job. -/
structure YaampRemote where
  deleted : Bool
  status : Status
  connected : Bool
  jobid : CString
  nonce1 : CString
  nonce2size : Int
  nonce1Next : CString
  nonce2sizeNext : Int
  difficultyActual : Rat
  difficultyNext : Rat
  job : Nat
  position : Position
  upstream : Upstream

namespace YaampRemote

/-- A remote as `db_update_remotes` allocates it. -/
def initial : YaampRemote where
  deleted := false
  status := .closed
  connected := false
  jobid := []
  nonce1 := []
  nonce2size := 0
  nonce1Next := []
  nonce2sizeNext := 0
  difficultyActual := 0
  difficultyNext := 0
  job := 0
  position := .reading
  upstream := Upstream.connected

/-- The fields that `job_assign_client` reads. -/
def seen (remote : YaampRemote) : Assign.YaampRemote where
  nonce1 := remote.nonce1
  nonce2size := remote.nonce2size
  difficultyActual := remote.difficultyActual

/-- The conditions of `remote_submit` on the remote. -/
def ready (remote : YaampRemote) : Bool :=
  !remote.deleted && remote.status == .ready && remote.connected

/-- The extranonce1 that goes with a client number in a message upstream. -/
def nonceOf (remote : YaampRemote) (subid : Subid) : CString :=
  if remote.nonce2size = 2 then remote.nonce1
  else remote.nonce1 ++ hexByte (UInt8.ofNat subid)

/-- The extranonce2 of `remote_submit`. -/
def extranonce2 (remote : YaampRemote) (subid : Subid) (extranonce2 : CString) :
    CString :=
  if remote.nonce2size = 2 then extranonce2
  else hexByte (UInt8.ofNat subid) ++ extranonce2

/-- The fields that `remote_close` writes. -/
def close (remote : YaampRemote) : YaampRemote :=
  { remote with
    difficultyActual := 0
    status := if remote.status = .terminate then .terminate else .closed
    job := 0
    connected := false
    upstream := Upstream.connected }

/-- The end of `remote_connect`, when the socket is connected. -/
def connect (remote : YaampRemote) : YaampRemote :=
  { remote with
    status := .subscribe
    connected := true
    upstream := Upstream.connected }

/-- The nonces of a subscription or of `mining.set_extranonce`. -/
def takeNonce (nonce1 : CString) (nonce2size : Int) (remote : YaampRemote) :
    YaampRemote :=
  { remote with
    nonce1Next := nonce1.take 16
    nonce2sizeNext := nonce2size }

/-- The comparison before the nonces are copied. -/
def nonceChanged (remote : YaampRemote) : Bool :=
  remote.nonce1 != remote.nonce1Next ||
    remote.nonce2size != remote.nonce2sizeNext ||
    remote.difficultyActual != remote.difficultyNext

/-- The nonces and the difficulty copied from the next ones. -/
def copyNonce (remote : YaampRemote) : YaampRemote :=
  { remote with
    nonce1 := stringLower (remote.nonce1Next.take 16)
    nonce2size := remote.nonce2sizeNext
    difficultyActual := remote.difficultyNext }

/-- The message read from the socket is taken out of the inbox. -/
def read (remote : YaampRemote) (rest : List Message) : YaampRemote :=
  { remote with upstream := { remote.upstream with inbox := rest } }

end YaampRemote

/-! ## The stratum -/

/-- The template of a remote job, and the number of its remote. -/
structure JobTemplate where
  remote : Nat
  coinb1 : CString
  coinb2 : CString

/-- A submission between `build_submit_values` and `remote_submit`. -/
structure Submission where
  job : Nat
  extranonce1 : CString
  extranonce2 : CString
  coinbase : CString

/-- A share that was forwarded. -/
structure Forwarded where
  rebuilt : Option CString
  hashed : CString

/--
The clients and jobs, the remotes, the templates of the remote jobs by their
numbers, and the submissions in progress by the numbers of the connections.
-/
structure State where
  server : Server
  remotes : Nat → YaampRemote
  templates : Nat → Option JobTemplate
  submissions : Nat → Option Submission
  forwarded : List Forwarded

def State.initial : State where
  server := Server.initial
  remotes := fun _ => YaampRemote.initial
  templates := fun _ => none
  submissions := fun _ => none
  forwarded := []

namespace State

variable (config : Config) (state : State)

/-- Sets a remote; its jobs show the new values to `job_assign_client`. -/
def setRemote (r : Nat) (remote : YaampRemote) : State :=
  { state with
    remotes := Function.update state.remotes r remote
    server :=
      { state.server with
        jobs :=
          state.server.jobs.mapIdx fun k job =>
            if (state.templates (k + 1)).any fun templ => templ.remote = r then
              { job with source := .remote remote.seen }
            else job } }

/-- `object_delete` on a job. -/
def deleteJob (jobid : Nat) : State :=
  { state with
    server :=
      state.server.modifyJob jobid fun job => { job with deleted := true } }

/-- The job exists and is not deleted. -/
def alive (jobid : Nat) : Bool :=
  (state.server.job jobid).any fun job => !job.deleted

/-! ## Steps of `remote_thread` -/

/-- `remote_close` -/
def remoteClose (r : Nat) (remote : YaampRemote) : State :=
  (state.deleteJob remote.job).setRemote r remote.close

/-- `remote_connect`; `connects` tells that the socket could be connected. -/
def remoteConnect (r : Nat) (connects : Bool) : State :=
  let remote := state.remotes r
  let closed :=
    if remote.connected then state.remoteClose r remote else state
  if connects then closed.setRemote r (closed.remotes r).connect else closed

/-- One turn of the loop up to the next message. -/
def remoteLoop (r : Nat) (connects : Bool) : State :=
  let remote := state.remotes r
  if remote.position ≠ .reading ∨ remote.deleted = true then state
  else if remote.status = .terminate then
    state.setRemote r { remote with deleted := true }
  else if remote.connected = false then state.remoteConnect r connects
  else
    match remote.status with
    | .reset => (state.remoteClose r remote).remoteConnect r connects
    | .extranonce => state.setRemote r { remote with status := .ready }
    | _ => state

/-- The socket fails in `socket_nextjson`. -/
def remoteFail (r : Nat) : State :=
  let remote := state.remotes r
  if remote.position = .reading ∧ remote.deleted = false ∧
      remote.connected = true then
    state.remoteClose r remote
  else state

/-- The nonces are taken, and a size below two closes the connection. -/
def remoteNonce (r : Nat) (nonce1 : CString) (nonce2size : Int)
    (remote : YaampRemote) : State :=
  if nonce2size < 2 then
    state.remoteClose r (remote.takeNonce nonce1 nonce2size)
  else state.setRemote r (remote.takeNonce nonce1 nonce2size)

/-- What `remote_thread` does with a message it has read. -/
def remoteMessage (r : Nat) (connects : Bool) (remote : YaampRemote) :
    Message → State
  | .subscribed nonce1 nonce2size =>
      state.remoteNonce r nonce1 nonce2size { remote with status := .authorize }
  | .authorized =>
      state.setRemote r
        (if remote.status = .authorize then
          { remote with status := .extranonce }
        else remote)
  | .setDifficulty difficulty =>
      state.setRemote r { remote with difficultyNext := difficulty }
  | .setExtranonce nonce1 nonce2size =>
      state.remoteNonce r nonce1 nonce2size remote
  | .notify notify =>
      state.setRemote r
        { remote with
          jobid := stringLower (notify.jobid.take 16)
          position := .named notify }
  | .reconnect => (state.remoteClose r remote).remoteConnect r connects

/-- `remote_thread` reads the next message. -/
def remoteReceive (r : Nat) (connects : Bool) : State :=
  let remote := state.remotes r
  if remote.position = .reading ∧ remote.deleted = false ∧
      remote.connected = true ∧ remote.status ≠ .terminate then
    match remote.upstream.inbox with
    | [] => state
    | message :: rest =>
        state.remoteMessage r connects (remote.read rest) message
  else state

/-- The template of `remote_create_job`. -/
def templateOf (r : Nat) (notify : Notify) : JobTemplate where
  remote := r
  coinb1 := notify.coinb1.take 1023
  coinb2 := notify.coinb2.take 1023

/-- `remote_create_job`; without any job `remote_thread` ends. -/
def remoteCreateJob (r : Nat) (notify : Notify) (remote : YaampRemote) :
    State :=
  if notify.complete then
    let jobid := state.server.jobs.length + 1
    { state with
      server := state.server.createJob remote.job (.remote remote.seen)
      templates :=
        Function.update state.templates jobid (some (templateOf r notify))
      remotes := Function.update state.remotes r { remote with job := jobid } }
  else
    { state.deleteJob remote.job with
      remotes :=
        Function.update state.remotes r
          { remote with deleted := remote.job = 0 } }

/-- One iteration of `job_assign_locked_clients`. -/
def assignLockedClient (jobid : Nat) (server : Server) (i : Nat) : Server :=
  match server.clients[i]? with
  | none => server
  | some client =>
      if client.jobidLocked = jobid then
        (server.modifyClient i fun client =>
          { client with jobidNext := jobid }).modifyJob jobid fun job =>
            { job with
              remoteSubids :=
                Function.update job.remoteSubids client.extranonce1Id true
              speed := job.speed + client.speed
              count := job.count + 1 }
      else server

/-- `job_assign_locked_clients` -/
def jobAssignLockedClients (jobid : Nat) (server : Server) : Server :=
  server.listed.foldl (assignLockedClient jobid)
    (server.jobAssignClients jobid)

/-- The next step of `remote_thread` on a `mining.notify`. -/
def remoteProceed (r : Nat) : State :=
  let remote := state.remotes r
  match remote.position with
  | .reading => state
  | .named notify =>
      if remote.nonceChanged then
        state.setRemote r
          { remote.copyNonce with position := .nonced notify true }
      else state.setRemote r { remote with position := .nonced notify false }
  | .nonced notify changed =>
      state.remoteCreateJob r notify
        { remote with position := if changed then .reading else .created }
  | .created =>
      { state with
        server := jobAssignLockedClients remote.job state.server
        remotes :=
          Function.update state.remotes r { remote with position := .reading } }

/-! ## Steps of the other threads -/

/-- The connection whose thread takes a step, for the steps of requests. -/
def clientThread : Action → Option Nat
  | .subscribe i _ _ _ _ => some i
  | .extranonceSubscribe i => some i
  | .authorize i _ _ => some i
  | _ => none

/-- The step only concerns jobs for coins, if it creates or deletes a job. -/
def sparesRemotes : Action → Bool
  | .createJob _ (.remote _) => false
  | .createJob old (.coind _) => (state.templates old).isNone
  | .deleteJob jobid => (state.templates jobid).isNone
  | _ => true

/-- A step of the assignment; a thread that handles a share does no other. -/
def assign (action : Action) : State :=
  if (clientThread action).all (fun i => (state.submissions i).isNone) ∧
      state.sparesRemotes action = true then
    { state with server := Assign.step config state.server action }
  else state

/--
`client_submit` on a remote job up to `build_submit_values`, for a request
that passes the checks of the nonce, the time and duplicates.
-/
def submit (i jobid : Nat) (extranonce2 : CString) : State :=
  let extranonce2 := stringLower (extranonce2.take 31)
  match state.server.clients[i]?, state.server.job jobid,
      state.templates jobid, state.submissions i with
  | some client, some job, some templ, none =>
      if job.freed = false ∧ job.deleted = false ∧
          (extranonce2.length : Int) = client.extranonce2size * 2 then
        { state with
          submissions :=
            Function.update state.submissions i
              (some
                { job := jobid
                  extranonce1 := client.extranonce1
                  extranonce2 := extranonce2
                  coinbase :=
                    templ.coinb1 ++ client.extranonce1 ++ extranonce2 ++
                      templ.coinb2 }) }
      else state
  | _, _, _, _ => state

/-- The submission ends without a message upstream. -/
def endSubmit (i : Nat) : State :=
  { state with submissions := Function.update state.submissions i none }

/-- `remote_submit` on a share below the target of the remote. -/
def remoteSubmit (i : Nat) : State :=
  match state.submissions i, state.server.clients[i]? with
  | some submission, some client =>
      match state.templates submission.job with
      | none => state
      | some templ =>
          let remote := state.remotes templ.remote
          if remote.ready then
            { state.endSubmit i with
              forwarded :=
                { rebuilt :=
                    remote.upstream.rebuild remote.jobid
                      (remote.extranonce2 client.extranonce1Id
                        submission.extranonce2)
                  hashed := submission.coinbase } :: state.forwarded }
          else state.endSubmit i
  | _, _ => state

/-- The upstream server of a connected remote sends a message. -/
def upstreamSend (r : Nat) (message : Message) : State :=
  let remote := state.remotes r
  if remote.connected then
    { state with
      remotes :=
        Function.update state.remotes r
          { remote with upstream := remote.upstream.send message } }
  else state

/-- `db_update_remotes` writes the status of a remote. -/
def setStatus (r : Nat) (status : Status) : State :=
  if status = .reset ∨ status = .terminate then
    { state with
      remotes :=
        Function.update state.remotes r
          { state.remotes r with status := status } }
  else state

end State

/-- A step of one of the threads or of an upstream server. -/
inductive Event where
  | upstreamSend (r : Nat) (message : Message)
  | remoteLoop (r : Nat) (connects : Bool)
  | remoteFail (r : Nat)
  | remoteReceive (r : Nat) (connects : Bool)
  | remoteProceed (r : Nat)
  | setStatus (r : Nat) (status : Status)
  | assign (action : Action)
  | submit (i jobid : Nat) (extranonce2 : CString)
  | endSubmit (i : Nat)
  | remoteSubmit (i : Nat)

def step (config : Config) (state : State) : Event → State
  | .upstreamSend r message => state.upstreamSend r message
  | .remoteLoop r connects => state.remoteLoop r connects
  | .remoteFail r => state.remoteFail r
  | .remoteReceive r connects => state.remoteReceive r connects
  | .remoteProceed r => state.remoteProceed r
  | .setStatus r status => state.setStatus r status
  | .assign action => state.assign config action
  | .submit i jobid extranonce2 => state.submit i jobid extranonce2
  | .endSubmit i => state.endSubmit i
  | .remoteSubmit i => state.remoteSubmit i

end YiimpStratum.Remote
