import Mathlib.Algebra.Order.Ring.Rat
import YiimpStratum.Share

/-!
# Credit for the workers

The part of `share.cpp` that adds up the difficulty of the shares of a worker
in a record and writes the records to the database.  `share_write` sends its
rows in queries of at most a thousand, and deletes what it has looked at.

Doubles are rational numbers.  A coin or remote has a number other than zero,
since zero in a record stands for none.
-/

namespace YiimpStratum.Worker

open YiimpStratum.Util

/-- The settings that the records and rows take over. -/
structure Config where
  stratumReconnect : Bool
  diffMultiplier : Rat
  pid : Int
  algo : CString

/-- The fields of `YAAMP_CLIENT` that `share_add` reads or writes. -/
structure YaampClient where
  userid : Int
  workerid : Int
  difficultyActual : Rat
  speed : Rat
  reconnecting : Bool
  reconnectable : Bool
  extranonceSubscribe : Bool
  extranonce1 : CString

/-- The number of a coin or of a remote. -/
abbrev SourceId := { id : Nat // id ≠ 0 }

/-- `coind` or `remote`: "either one of them". -/
inductive Source where
  | coind (id : SourceId)
  | remote (id : SourceId)

/-- The fields of `YAAMP_JOB` that `share_add` reads. -/
structure YaampJob where
  id : Nat
  source : Source

namespace Source

def coinid : Source → Nat
  | .coind id => id
  | .remote _ => 0

def remoteid : Source → Nat
  | .coind _ => 0
  | .remote id => id

/-- A job is for a coin or for a remote, not for both. -/
theorem onlyOne (source : Source) :
    source.coinid = 0 ∨ source.remoteid = 0 := by
  cases source with
  | coind id => exact Or.inr rfl
  | remote id => exact Or.inl rfl

end Source

/-! ## Records -/

/-- `YAAMP_WORKER` without `ntime`, which only a warning reads. -/
structure YaampWorker extends YaampObject where
  userid : Int
  workerid : Int
  coinid : Nat
  remoteid : Nat
  valid : Bool
  extranonce1 : Bool
  errorNumber : Int
  difficulty : Rat
  shareDiff : Rat
  onlyOne : coinid = 0 ∨ remoteid = 0

namespace YaampWorker

/-- The comparison of a record with a job in `share_find_worker`. -/
def isForJob (worker : YaampWorker) : Option YaampJob → Bool
  | none => worker.coinid == 0 && worker.remoteid == 0
  | some job =>
      match job.source with
      | .coind id => worker.coinid == id
      | .remote id => worker.remoteid == id

/-- The condition on the record that `share_find_worker` returns. -/
def isFor (client : YaampClient) (job : Option YaampJob) (valid : Bool)
    (worker : YaampWorker) : Bool :=
  !worker.deleted && worker.userid == client.userid &&
    worker.workerid == client.workerid && worker.valid == valid &&
      worker.isForJob job

def addDifficulty (difficulty : Rat) (worker : YaampWorker) : YaampWorker :=
  { worker with difficulty := worker.difficulty + difficulty }

/-- `object_delete` on a record. -/
def delete (worker : YaampWorker) : YaampWorker :=
  { worker with toYaampObject := worker.toYaampObject.delete }

def setHeader (header : YaampObject) (worker : YaampWorker) : YaampWorker :=
  { worker with toYaampObject := header }

end YaampWorker

/-- `share_find_worker`, with the position of the record. -/
def shareFindWorker (client : YaampClient) (job : Option YaampJob)
    (valid : Bool) (workers : List YaampWorker) : Option Nat :=
  workers.findIdx? (YaampWorker.isFor client job valid)

/-- The record that `share_add_worker` appends. -/
def newWorker (config : Config) (client : YaampClient)
    (job : Option YaampJob) (valid : Bool) (shareDiff : Rat)
    (errorNumber : Int) : YaampWorker where
  toYaampObject := YaampObject.zeroed
  userid := client.userid
  workerid := client.workerid
  coinid := job.elim 0 fun job => job.source.coinid
  remoteid := job.elim 0 fun job => job.source.remoteid
  valid := valid
  extranonce1 :=
    if config.stratumReconnect then
      !client.reconnecting &&
        (client.reconnectable || client.extranonceSubscribe)
    else client.extranonceSubscribe
  errorNumber := errorNumber
  difficulty := 0
  shareDiff := shareDiff
  onlyOne := by
    cases job with
    | none => exact Or.inl rfl
    | some job => exact job.source.onlyOne

namespace Config

variable (config : Config)

/-- The credit for one share. -/
def credit (client : YaampClient) (valid : Bool) : Rat :=
  if valid then client.difficultyActual / config.diffMultiplier else 0

end Config

/-- `share_add_worker` on the list of records. -/
def shareAddWorker (config : Config) (client : YaampClient)
    (job : Option YaampJob) (valid : Bool) (shareDiff : Rat)
    (errorNumber : Int) (workers : List YaampWorker) : List YaampWorker :=
  let found := shareFindWorker client job valid workers
  let credit := YaampWorker.addDifficulty (config.credit client valid)
  match found with
  | some position => workers.modify position credit
  | none =>
      workers ++
        [credit (newWorker config client job valid shareDiff errorNumber)]

/-- `share_add_worker` on the client. -/
def speedUp (config : Config) (client : YaampClient) (valid : Bool) :
    YaampClient :=
  if valid then
    { client with
      speed :=
        client.speed + client.difficultyActual / config.diffMultiplier * 42 }
  else client

/-! ## Rows -/

/-- A row of `insert into shares`. -/
structure Row where
  userid : Int
  workerid : Int
  coinid : Nat
  jobid : Nat
  pid : Int
  valid : Bool
  extranonce1 : Bool
  difficulty : Rat
  shareDiff : Rat
  time : Int
  algo : CString
  error : Int

/-- The row of a record. -/
def YaampWorker.row (config : Config) (now : Int) (worker : YaampWorker) :
    Row where
  userid := worker.userid
  workerid := worker.workerid
  coinid := worker.coinid
  jobid := worker.remoteid
  pid := config.pid
  valid := worker.valid
  extranonce1 := worker.extranonce1
  difficulty := worker.difficulty
  shareDiff := worker.shareDiff
  time := now
  algo := config.algo
  error := worker.errorNumber

/-- The queries sent, and the rows in the buffer with their count. -/
structure Writer where
  queries : List (List Row)
  buffer : List Row
  count : Nat

namespace Writer

def initial : Writer where
  queries := []
  buffer := []
  count := 0

/-- A row goes into the buffer, and a full buffer to the database. -/
def write (row : Row) (writer : Writer) : Writer :=
  if 1000 ≤ writer.count + 1 then
    { queries := writer.queries ++ [writer.buffer ++ [row]]
      buffer := []
      count := 0 }
  else
    { writer with
      buffer := writer.buffer ++ [row]
      count := writer.count + 1 }

/-- The last query. -/
def finish (writer : Writer) : List (List Row) :=
  if writer.count = 0 then writer.queries
  else writer.queries ++ [writer.buffer]

end Writer

/-- The loop of `share_write`. -/
def writeWorkers (row : YaampWorker → Row) (writer : Writer) :
    List YaampWorker → Writer × List YaampWorker
  | [] => (writer, [])
  | worker :: workers =>
      if worker.deleted then
        let rest := writeWorkers row writer workers
        (rest.1, worker :: rest.2)
      else if worker.workerid = 0 then
        let rest := writeWorkers row writer workers
        (rest.1, worker.delete :: rest.2)
      else
        let rest := writeWorkers row (writer.write (row worker)) workers
        (rest.1, worker.delete :: rest.2)

/-- `share_write`: the queries, and the records after it. -/
def shareWrite (config : Config) (now : Int) (workers : List YaampWorker) :
    List (List Row) × List YaampWorker :=
  let written := writeWorkers (YaampWorker.row config now) Writer.initial
    workers
  (written.1.finish, written.2)

/-! ## Runs -/

/-- The lists of records and shares, the counter, and the queries sent. -/
structure State where
  workers : List YaampWorker
  shares : List YaampShare
  sharesCounter : Nat
  queries : List (List Row)

def State.initial : State where
  workers := []
  shares := []
  sharesCounter := 0
  queries := []

/-- A call of one of the functions. -/
inductive Call where
  | shareAdd (client : YaampClient) (job : Option YaampJob) (valid : Bool)
      (extranonce2 ntime nonce : CString) (shareDiff : Rat)
      (errorNumber : Int)
  | shareWrite (now : Int)
  | pruneWorkers

def step (config : Config) (state : State) : Call → State
  | .shareAdd client job valid extranonce2 ntime nonce shareDiff
        errorNumber =>
      { state with
        workers :=
          shareAddWorker config client job valid shareDiff errorNumber
            state.workers
        shares :=
          YiimpStratum.shareAdd state.shares
            (job.elim 0 fun job => job.id) extranonce2 ntime nonce
            client.extranonce1
        sharesCounter := state.sharesCounter + 1 }
  | .shareWrite now =>
      let written := shareWrite config now state.workers
      { state with
        workers := written.2
        queries := state.queries ++ written.1 }
  | .pruneWorkers =>
      { state with
        workers :=
          objectPrune YaampWorker.toYaampObject YaampWorker.setHeader
            state.workers }

end YiimpStratum.Worker
