import Mathlib.Data.Rat.Defs
import YiimpStratum.Library.Run
import YiimpStratum.Object
import YiimpStratum.Util.Hex

/-!
# Search spaces of the clients

`client_subscribe` gives a connection its extranonces, `client_authorize` puts
it into `g_list_client`, and `job_update` assigns the listed clients to jobs
with `job_assign_client`, which may change the extranonce again.

A client is numbered by its connection and a job by `job_get_jobid`, which
counts from one; the number zero stands for no job.  A remote job keeps the
nonce that its remote had when the job was created.  The order in which
`job_update` visits the jobs depends on profits and is an input, as are the
job that `job_get_last` returns and the measured speeds and difficulties.
Each assignment of one client is a step, and other threads may run between
two of them.
-/

namespace YiimpStratum.Assign

open YiimpStratum.Util

/-- The settings of the stratum that the assignment reads. -/
structure Config where
  autoexchange : Bool
  stratumReconnect : Bool
  decred : Bool
  deriving DecidableEq

/-! ## Clients -/

/-- An index of `remote_subids`, below `YAAMP_JOB_MAXSUBIDS`. -/
abbrev Subid := Fin 200

/-- The fields of `YAAMP_CLIENT` that the assignment reads or writes. -/
structure YaampClient extends YaampObject where
  notifyId : CString
  reconnectable : Bool
  reconnecting : Bool
  coinid : Nat
  difficultyActual : Rat
  difficultyRemote : Rat
  difficultyFixed : Bool
  extranonce1 : CString
  extranonce2size : Int
  extranonce1Default : CString
  extranonce2sizeDefault : Int
  extranonce1Last : CString
  extranonce2sizeLast : Int
  extranonce1Reconnect : CString
  extranonce2sizeReconnect : Int
  extranonceSubscribe : Bool
  speed : Rat
  extranonce1Id : Subid
  jobidNext : Nat
  jobidSent : Nat
  jobidLocked : Nat
  jobHistory : List Nat

namespace YaampClient

/-- A client as `client_thread` allocates it. -/
def connected : YaampClient where
  toYaampObject := YaampObject.zeroed
  notifyId := []
  reconnectable := true
  reconnecting := false
  coinid := 0
  difficultyActual := 0
  difficultyRemote := 0
  difficultyFixed := false
  extranonce1 := []
  extranonce2size := 0
  extranonce1Default := []
  extranonce2sizeDefault := 0
  extranonce1Last := []
  extranonce2sizeLast := 0
  extranonce1Reconnect := []
  extranonce2sizeReconnect := 0
  extranonceSubscribe := false
  speed := 1
  extranonce1Id := 0
  jobidNext := 0
  jobidSent := 0
  jobidLocked := 0
  jobHistory := List.replicate 16 0

end YaampClient

/-- `get_next_extraonce1`, with the counter after its increment. -/
def getNextExtraonce1 (counter : Nat) : CString :=
  hex8 (counter ||| 0x81000000)

namespace Config

variable (config : Config)

/-- The extranonce that goes with a default one. -/
def extranonce1 (default : CString) : CString :=
  if config.decred then List.replicate 16 '0' ++ default.take 8
  else default

/-- `extranonce2size_default` -/
def extranonce2sizeDefault : Int :=
  if config.decred then 12 else 4

end Config

namespace YaampClient

/-- The part of `client_subscribe` before the search by the notify id. -/
def subscribe (config : Config) (nonce key : CString) (difficulty : Rat)
    (proxy : Bool) (client : YaampClient) : YaampClient :=
  { client with
    extranonce1Default := nonce
    extranonce2sizeDefault := config.extranonce2sizeDefault
    difficultyActual := difficulty
    extranonce1 := config.extranonce1 nonce
    extranonce2size := config.extranonce2sizeDefault
    notifyId := key
    reconnectable := client.reconnectable && !proxy }

/-- The fields taken from a reconnecting client. -/
def resume (notifyId : CString) (client1 client : YaampClient) :
    YaampClient :=
  { client with
    notifyId := notifyId
    jobidLocked := client1.jobidLocked
    difficultyActual := client1.difficultyActual
    extranonce2sizeDefault := client1.extranonce2sizeDefault
    extranonce1Default := client1.extranonce1Default
    extranonce2size := client1.extranonce2sizeReconnect
    extranonce1 := client1.extranonce1Reconnect
    speed := client1.speed
    extranonce1Id := client1.extranonce1Id
    jobHistory := client1.jobHistory }

/-- The fields taken from a client that is not reconnecting. -/
def resumeOther (notifyId : CString) (client1 client : YaampClient) :
    YaampClient :=
  { client with
    notifyId := notifyId
    difficultyActual := client1.difficultyActual
    speed := client1.speed
    jobHistory := client1.jobHistory }

/-- The end of `client_subscribe`. -/
def rememberNonce (client : YaampClient) : YaampClient :=
  { client with
    extranonce1Last := client.extranonce1
    extranonce2sizeLast := client.extranonce2size }

/-- `client1->lock_count = 0` -/
def dropLocks (client : YaampClient) : YaampClient :=
  { client with lockCount := 0 }

def setHeader (header : YaampObject) (client : YaampClient) : YaampClient :=
  { client with toYaampObject := header }

/-- `client_find_job_history`, from an index. -/
def findJobHistory (client : YaampClient) (jobid startat : Nat) : Bool :=
  (client.jobHistory.drop startat).contains jobid

/-- `client_add_job_history` -/
def addJobHistory (jobid : Nat) (client : YaampClient) : YaampClient :=
  if jobid = 0 ∨ client.findJobHistory jobid 0 = true then client
  else
    { client with jobHistory := (jobid :: client.jobHistory).take 16 }

end YaampClient

/-! ## Jobs -/

/-- The fields of `YAAMP_REMOTE` that the assignment reads. -/
structure YaampRemote where
  nonce1 : CString
  nonce2size : Int
  difficultyActual : Rat

/-- `coind` or `remote`: "either one of them". -/
inductive Source where
  | coind (id : Nat)
  | remote (remote : YaampRemote)

/-- `YAAMP_JOB`; `freed` tells that `object_prune` has removed it. -/
structure YaampJob where
  source : Source
  deleted : Bool
  freed : Bool
  count : Nat
  speed : Rat
  remoteSubids : Subid → Bool

namespace YaampJob

def create (source : Source) : YaampJob where
  source := source
  deleted := false
  freed := false
  count := 0
  speed := 0
  remoteSubids := fun _ => false

/-- `job->remote` is set. -/
def isRemote (job : YaampJob) : Bool :=
  match job.source with
  | .coind _ => false
  | .remote _ => true

/-- The job is not the one of the client's coin. -/
def otherCoin (job : YaampJob) (coinid : Nat) : Bool :=
  match job.source with
  | .coind id => coinid != id
  | .remote _ => true

/-- The nonce that a remote job gives to the client with a number. -/
def nonceOf (remote : YaampRemote) (subid : Subid) : CString :=
  remote.nonce1 ++ hexByte (UInt8.ofNat subid)

end YaampJob

/-! ## Assignment of one client -/

/--
The number that `job_assign_client` reserves: the client's own one when it is
not reserved, or else the first that is not.
-/
def reserveSubid (job : YaampJob) (own : Subid) : Option Subid :=
  if job.remoteSubids own then
    (List.finRange 200).find? fun subid => !job.remoteSubids subid
  else
    some own

/-- The early returns of `job_assign_client` for every job. -/
def skipped (config : Config) (jobid : Nat) (job : YaampJob)
    (client : YaampClient) (maxhash : Rat) : Bool :=
  client.deleted || client.jobidNext != 0 ||
    (client.jobidLocked != 0 && client.jobidLocked != jobid) ||
    client.findJobHistory jobid 1 ||
    (decide (0 < maxhash) && decide (maxhash < job.speed + client.speed)) ||
    -- The code reads the coin of the job here also when the job has none.
    (!config.autoexchange && decide (0 ≤ maxhash) &&
      job.otherCoin client.coinid)

/-- The early returns for a remote job, with the value returned. -/
def remoteSkipped (config : Config) (remote : YaampRemote) (job : YaampJob)
    (client : YaampClient) : Option Bool :=
  if !client.extranonceSubscribe &&
      !(config.stratumReconnect && client.reconnectable) then some true
  else if client.reconnecting then some true
  else if 200 ≤ job.count then some false
  else if remote.difficultyActual < client.difficultyActual &&
      (client.difficultyFixed ||
        decide (remote.difficultyActual * 4 < client.difficultyActual)) then
    some true
  else none

/-- `difficulty_remote` in `job_assign_client` -/
def difficultyRemote (remote : YaampRemote) (client : YaampClient) : Rat :=
  if remote.difficultyActual < client.difficultyActual then
    remote.difficultyActual
  else if client.difficultyActual < remote.difficultyActual then 0
  else client.difficultyRemote

/-- The nonce of a remote job: `none` when there is none left. -/
def giveRemoteNonce (remote : YaampRemote) (jobid : Nat) (job : YaampJob)
    (client : YaampClient) : Option (YaampJob × YaampClient) :=
  if remote.nonce2size = 2 then
    if 0 < job.count then none
    else
      some (job,
        { client with extranonce1 := remote.nonce1, extranonce2size := 2 })
  else if jobid = client.jobidSent then some (job, client)
  else
    (reserveSubid job client.extranonce1Id).map fun subid =>
      ({ job with
          remoteSubids := Function.update job.remoteSubids subid true },
        { client with
          extranonce1Id := subid
          extranonce1 := YaampJob.nonceOf remote subid
          extranonce2size := remote.nonce2size - 1
          difficultyRemote := difficultyRemote remote client })

/-- The nonce of a job for a coin. -/
def giveCoinNonce (config : Config) (client : YaampClient) : YaampClient :=
  { client with
    extranonce1 := config.extranonce1 client.extranonce1Default
    extranonce2size := client.extranonce2sizeDefault
    difficultyRemote := 0
    jobidLocked := 0 }

/-- The end of `job_assign_client`: a changed nonce is announced. -/
def announceNonce (client : YaampClient) : YaampClient :=
  if client.extranonce1 = client.extranonce1Last ∧
      client.extranonce2size = client.extranonce2sizeLast then
    client
  else if client.extranonceSubscribe then
    { client with
      extranonce1Last := client.extranonce1
      extranonce2sizeLast := client.extranonce2size }
  else
    { client with
      extranonce1Reconnect := client.extranonce1
      extranonce2sizeReconnect := client.extranonce2size
      extranonce1 := client.extranonce1Default
      extranonce2size := client.extranonce2sizeDefault
      reconnecting := true
      lockCount := client.lockCount + 1
      unlock := true
      jobidSent := client.jobidNext }

/-- What `job_assign_client` does to a job and a client with its nonce. -/
def finishAssign (jobid : Nat) (job : YaampJob) (client : YaampClient) :
    YaampJob × YaampClient :=
  ({ job with speed := job.speed + client.speed, count := job.count + 1 },
    announceNonce { client with jobidNext := jobid })

/-- `job_assign_client`: the value returned, the job and the client. -/
def jobAssignClient (config : Config) (jobid : Nat) (job : YaampJob)
    (client : YaampClient) (maxhash : Rat) :
    Bool × YaampJob × YaampClient :=
  if skipped config jobid job client maxhash then (true, job, client)
  else
    match job.source with
    | .remote remote =>
        match remoteSkipped config remote job client with
        | some result => (result, job, client)
        | none =>
            match giveRemoteNonce remote jobid job client with
            | none => (false, job, client)
            | some (given, taken) =>
                (true,
                  finishAssign jobid given
                    { taken with jobidLocked := jobid })
    | .coind _ =>
        (true, finishAssign jobid job (giveCoinNonce config client))

/-! ## The server -/

/--
The connections in the order of their numbers, `g_list_client`, the jobs, and
the position of `job_update`: the jobs that it has not visited yet, and the
job that it assigns clients to.
-/
structure Server where
  clients : List YaampClient
  listed : List Nat
  jobs : List YaampJob
  extraonceCounter : Nat
  waiting : List Nat
  current : Nat

def Server.initial : Server where
  clients := []
  listed := []
  jobs := []
  extraonceCounter := 0
  waiting := []
  current := 0

namespace Server

variable (config : Config) (server : Server)

/-- The job with this number. -/
def job (jobid : Nat) : Option YaampJob :=
  if jobid = 0 then none else server.jobs[jobid - 1]?

def modifyClient (i : Nat) (change : YaampClient → YaampClient) : Server :=
  { server with clients := server.clients.modify i change }

/-- Changes the clients in `g_list_client`. -/
def modifyListed (change : YaampClient → YaampClient) : Server :=
  { server with
    clients :=
      server.clients.mapIdx fun i client =>
        if i ∈ server.listed then change client else client }

def modifyJob (jobid : Nat) (change : YaampJob → YaampJob) : Server :=
  if jobid = 0 then server
  else { server with jobs := server.jobs.modify (jobid - 1) change }

/-! ## Steps of the connections -/

def connect : Server :=
  { server with clients := server.clients ++ [YaampClient.connected] }

/-- `client_find_notify_id` -/
def clientFindNotifyId (notifyId : CString) (reconnecting : Bool) :
    Option Nat :=
  if notifyId = [] then none
  else
    server.listed.find? fun i =>
      server.clients[i]?.any fun client =>
        client.reconnecting == reconnecting && client.notifyId == notifyId

/-- The search by the notify id and what follows from it. -/
def resume (i : Nat) (notifyId : CString) : Server :=
  match server.clientFindNotifyId notifyId true with
  | some j =>
      match server.clients[j]? with
      | none => server
      | some client1 =>
          (server.modifyClient i
            (YaampClient.resume notifyId client1)).modifyClient j
              YaampClient.dropLocks
  | none =>
      match server.clientFindNotifyId notifyId false with
      | some j =>
          match server.clients[j]? with
          | none => server
          | some client1 =>
              (server.modifyClient i
                (YaampClient.resumeOther notifyId client1)).modifyClient j
                  YaampClient.dropLocks
      | none => server

/--
`client_subscribe`; `key` is the random notify id, `notifyId` the one that the
request presents.
-/
def clientSubscribe (i : Nat) (key notifyId : CString) (difficulty : Rat)
    (proxy : Bool) : Server :=
  let counter := server.extraonceCounter + 1
  let counted := { server with extraonceCounter := counter }
  ((counted.modifyClient i
    (YaampClient.subscribe config (getNextExtraonce1 counter) key difficulty
      proxy)).resume i notifyId).modifyClient i YaampClient.rememberNonce

/-- The number of the job that `client_authorize` sends. -/
def sentJob (last : Nat) (client : YaampClient) : Nat :=
  if client.jobidLocked ≠ 0 ∧
      ((server.job client.jobidLocked).any fun job => !job.freed) = true then
    client.jobidLocked
  else if ((server.job last).any fun job => !job.isRemote) = true then last
  else client.jobidSent

/--
`client_authorize` of an accepted user; `last` is the job that `job_get_last`
returns, a job of some coin.
-/
def clientAuthorize (i coinid last : Nat) : Server :=
  if i ∈ server.listed ∨ server.clients.length ≤ i then server
  else
    { server.modifyClient i fun client =>
        { client with
          coinid := coinid
          jobidSent := server.sentJob last client } with
      listed := server.listed ++ [i] }

/-! ## Steps of `job_update` -/

/-- `job_reset_clients`; zero stands for all jobs. -/
def jobResetClients (jobid : Nat) : Server :=
  server.modifyListed fun client =>
    if client.deleted = false ∧
        (jobid = 0 ∨ client.jobidNext = jobid) then
      { client with jobidNext := 0 }
    else client

/-- The start of `job_update`. -/
def jobUpdate : Server :=
  { server.jobResetClients 0 with
    waiting := List.range' 1 server.jobs.length
    current := 0 }

/-- The start of `job_assign_clients`. -/
def jobAssignClients (jobid : Nat) : Server :=
  server.modifyJob jobid fun job => { job with speed := 0, count := 0 }

/-- `job_update` goes on to a job; `canMine` is the rest of the condition. -/
def nextJob (jobid : Nat) (canMine : Bool) : Server :=
  if jobid ∈ server.waiting then
    let left :=
      { server with
        waiting := server.waiting.filter fun other => other != jobid
        current := 0 }
    if (server.job jobid).any (fun job => !job.deleted) && canMine then
      { left.jobAssignClients jobid with current := jobid }
    else left
  else server

/-- `job_update` leaves its loop over the jobs. -/
def jobsDone : Server :=
  { server with waiting := [], current := 0 }

/-- `job_assign_client` on a job and a listed client. -/
def assignClient (jobid i : Nat) (maxhash : Rat) : Server :=
  match server.job jobid, server.clients[i]? with
  | some job, some client =>
      if i ∈ server.listed then
        let assigned := jobAssignClient config jobid job client maxhash
        (server.modifyJob jobid fun _ => assigned.2.1).modifyClient i
          fun _ => assigned.2.2
      else server
  | _, _ => server

/-- The start of `job_assign_clients` on a job for a coin. -/
def jobAssignClientsLeft (jobid : Nat) : Server :=
  if (server.job jobid).any (fun job => !job.isRemote) then
    server.jobAssignClients jobid
  else server

/-- `job_assign_client` on a job for a coin, after the loop over the jobs. -/
def assignClientLeft (jobid i : Nat) (maxhash : Rat) : Server :=
  if (server.job jobid).any (fun job => !job.isRemote) then
    server.assignClient config jobid i maxhash
  else server

/-- `job_unlock_clients`; zero stands for all jobs. -/
def jobUnlockClients (jobid : Nat) : Server :=
  server.modifyListed fun client =>
    if client.deleted = false ∧ client.jobidLocked ≠ client.jobidNext ∧
        (jobid = 0 ∨ client.jobidLocked = jobid) then
      { client with jobidLocked := 0 }
    else client

/--
One iteration of `job_broadcast`; `lost` tells that the client is dropped
after its third timeout.
-/
def jobBroadcast (jobid i : Nat) (lost : Bool) : Server :=
  if i ∈ server.listed ∧ (server.job jobid).isSome then
    server.modifyClient i fun client =>
      if client.deleted = false ∧ client.jobidNext = jobid ∧
          client.jobidSent ≠ jobid then
        let sent := { client with jobidSent := jobid }.addJobHistory jobid
        if lost then sent.setHeader sent.toYaampObject.delete else sent
      else client
  else server

/-! ## Steps of other threads -/

/-- `job_relock_clients` -/
def jobRelockClients (old new : Nat) : Server :=
  if old = 0 ∨ new = 0 then server
  else
    server.modifyListed fun client =>
      if client.jobidLocked = old then { client with jobidLocked := new }
      else client

/-- `coind_create_job` and `remote_create_job`, with the job replaced. -/
def createJob (old : Nat) (source : Source) : Server :=
  let created :=
    { server.modifyJob old fun job => { job with deleted := true } with
      jobs :=
        (server.modifyJob old fun job => { job with deleted := true }).jobs ++
          [YaampJob.create source] }
  match source with
  | .coind _ => created
  | .remote _ => created.jobRelockClients old (server.jobs.length + 1)

/-- `object_prune` on a job that is deleted and not locked. -/
def freeJob (jobid : Nat) : Server :=
  server.modifyJob jobid fun job =>
    if job.deleted then { job with freed := true } else job

/-- One exchange of `client_sort`. -/
def clientSort (position : Nat) : Server :=
  match server.listed[position]?, server.listed[position + 1]? with
  | some i, some j =>
      { server with
        listed := (server.listed.set position j).set (position + 1) i }
  | _, _ => server

/-- `object_prune` on `g_list_client`. -/
def pruneClients : Server :=
  { server.modifyListed fun client =>
      client.setHeader client.toYaampObject.release with
    listed :=
      server.listed.filter fun i =>
        !server.clients[i]?.any fun client => client.prunable }

end Server

/-- A step of one of the threads. -/
inductive Action where
  | connect
  | subscribe (i : Nat) (key notifyId : CString) (difficulty : Rat)
      (proxy : Bool)
  | extranonceSubscribe (i : Nat)
  | authorize (i coinid last : Nat)
  | measure (i : Nat) (speed difficulty : Rat) (fixed : Bool)
  | disconnect (i : Nat)
  | jobUpdate
  | nextJob (jobid : Nat) (canMine : Bool)
  | assignClient (i : Nat) (maxhash : Rat)
  | jobsDone
  | jobAssignClientsLeft (jobid : Nat)
  | assignClientLeft (jobid i : Nat) (maxhash : Rat)
  | jobUnlockClients (jobid : Nat)
  | jobResetClients (jobid : Nat)
  | jobBroadcast (jobid i : Nat) (lost : Bool)
  | createJob (old : Nat) (source : Source)
  | deleteJob (jobid : Nat)
  | freeJob (jobid : Nat)
  | clientSort (position : Nat)
  | pruneClients

def step (config : Config) (server : Server) : Action → Server
  | .connect => server.connect
  | .subscribe i key notifyId difficulty proxy =>
      server.clientSubscribe config i key notifyId difficulty proxy
  | .extranonceSubscribe i =>
      server.modifyClient i fun client =>
        { client with extranonceSubscribe := true }
  | .authorize i coinid last => server.clientAuthorize i coinid last
  | .measure i speed difficulty fixed =>
      server.modifyClient i fun client =>
        { client with
          speed := speed
          difficultyActual := difficulty
          difficultyFixed := fixed }
  | .disconnect i =>
      server.modifyClient i fun client =>
        client.setHeader client.toYaampObject.delete
  | .jobUpdate => server.jobUpdate
  | .nextJob jobid canMine => server.nextJob jobid canMine
  | .assignClient i maxhash =>
      server.assignClient config server.current i maxhash
  | .jobsDone => server.jobsDone
  | .jobAssignClientsLeft jobid => server.jobAssignClientsLeft jobid
  | .assignClientLeft jobid i maxhash =>
      server.assignClientLeft config jobid i maxhash
  | .jobUnlockClients jobid => server.jobUnlockClients jobid
  | .jobResetClients jobid => server.jobResetClients jobid
  | .jobBroadcast jobid i lost => server.jobBroadcast jobid i lost
  | .createJob old source => server.createJob old source
  | .deleteJob jobid =>
      server.modifyJob jobid fun job => { job with deleted := true }
  | .freeJob jobid => server.freeJob jobid
  | .clientSort position => server.clientSort position
  | .pruneClients => server.pruneClients

end YiimpStratum.Assign
