import Mathlib.Tactic.Linarith
import YiimpStratum.Library.Run
import YiimpStratum.Worker.Credit

/-!
# Credit is conserved

What a worker earned for a coin or remote is in the rows written or in the one
record that is not deleted.  A row leaves the records when it enters the
buffer, and the buffer is a query of its own whenever it is full.
-/

namespace YiimpStratum.Worker

open YiimpStratum.Util

/-! ## Keys -/

/-- What a record or a row is credited for. -/
structure Key where
  userid : Int
  workerid : Int
  coinid : Nat
  remoteid : Nat
  valid : Bool
  deriving DecidableEq

/-- The key of a call of `share_add`. -/
def keyOf (client : YaampClient) (job : Option YaampJob) (valid : Bool) :
    Key where
  userid := client.userid
  workerid := client.workerid
  coinid := job.elim 0 fun job => job.source.coinid
  remoteid := job.elim 0 fun job => job.source.remoteid
  valid := valid

def YaampWorker.key (worker : YaampWorker) : Key where
  userid := worker.userid
  workerid := worker.workerid
  coinid := worker.coinid
  remoteid := worker.remoteid
  valid := worker.valid

def Row.key (row : Row) : Key where
  userid := row.userid
  workerid := row.workerid
  coinid := row.coinid
  remoteid := row.jobid
  valid := row.valid

namespace YaampWorker

/-- The record is the one for the key. -/
def live (key : Key) (worker : YaampWorker) : Bool :=
  !worker.deleted && decide (worker.key = key)

/-- The record gets a row in `share_write`. -/
def writable (worker : YaampWorker) : Bool :=
  !worker.deleted && worker.workerid != 0

end YaampWorker

/-- The difficulty of the records for a key. -/
def pending (key : Key) (workers : List YaampWorker) : Rat :=
  ((workers.filter (YaampWorker.live key)).map
    YaampWorker.difficulty).sum

/-- The difficulty of the rows for a key. -/
def written (key : Key) (rows : List Row) : Rat :=
  ((rows.filter fun row => decide (row.key = key)).map Row.difficulty).sum

/-- The work credited by a call. -/
def Call.work (config : Config) (key : Key) : Call → Rat
  | .shareAdd client job valid _ _ _ _ _ =>
      if keyOf client job valid = key ∧ valid = true then
        client.difficultyActual / config.diffMultiplier
      else 0
  | _ => 0

/-- The work credited by the valid shares for a key. -/
def credited (config : Config) (key : Key) (calls : List Call) : Rat :=
  (calls.map (Call.work config key)).sum

/-- A job finds the records with its own coin or remote, or with neither. -/
theorem isForJob_iff (worker : YaampWorker) (job : Option YaampJob) :
    worker.isForJob job = true ↔
      worker.coinid = job.elim 0 (fun job => job.source.coinid) ∧
        worker.remoteid = job.elim 0 fun job => job.source.remoteid := by
  cases job with
  | none => simp [YaampWorker.isForJob]
  | some job =>
      obtain ⟨jobid, source⟩ := job
      cases source with
      | coind id =>
          change (worker.coinid == (id : Nat)) = true ↔
            worker.coinid = id ∧ worker.remoteid = 0
          rw [beq_iff_eq]
          refine ⟨fun same => ⟨same, ?_⟩, And.left⟩
          exact worker.onlyOne.resolve_left (same ▸ id.property)
      | remote id =>
          change (worker.remoteid == (id : Nat)) = true ↔
            worker.coinid = 0 ∧ worker.remoteid = id
          rw [beq_iff_eq]
          refine ⟨fun same => ⟨?_, same⟩, And.right⟩
          exact worker.onlyOne.resolve_right (same ▸ id.property)

/-- `share_find_worker` looks for the key of the call. -/
theorem isFor_eq_live (client : YaampClient) (job : Option YaampJob)
    (valid : Bool) :
    YaampWorker.isFor client job valid =
      YaampWorker.live (keyOf client job valid) := by
  funext worker
  rw [Bool.eq_iff_iff, YaampWorker.isFor, YaampWorker.live]
  simp only [Bool.and_eq_true, isForJob_iff, beq_iff_eq, decide_eq_true_eq,
    YaampWorker.key, keyOf, Key.mk.injEq, and_assoc]
  constructor
  · rintro ⟨alive, userid, workerid, valid, coinid, remoteid⟩
    exact ⟨alive, userid, workerid, coinid, remoteid, valid⟩
  · rintro ⟨alive, userid, workerid, coinid, remoteid, valid⟩
    exact ⟨alive, userid, workerid, valid, coinid, remoteid⟩

/-! ## Calls of `share_add` -/

theorem pending_cons (key : Key) (worker : YaampWorker)
    (workers : List YaampWorker) :
    pending key (worker :: workers) =
      (if worker.live key then worker.difficulty else 0) +
        pending key workers := by
  rw [pending, List.filter_cons]
  split
  · rw [List.map_cons, List.sum_cons]
    rfl
  · rw [zero_add]
    rfl

theorem pending_append (key : Key) (left right : List YaampWorker) :
    pending key (left ++ right) = pending key left + pending key right := by
  rw [pending, List.filter_append, List.map_append, List.sum_append]
  rfl

@[simp]
theorem live_addDifficulty (key : Key) (difficulty : Rat)
    (worker : YaampWorker) :
    (worker.addDifficulty difficulty).live key = worker.live key :=
  rfl

theorem eq_of_live {key other : Key} {worker : YaampWorker}
    (own : worker.live other = true) :
    (if worker.live key then (1 : Rat) else 0) =
      if other = key then 1 else 0 := by
  rw [YaampWorker.live, Bool.and_eq_true, decide_eq_true_eq] at own
  rw [YaampWorker.live, own.1, own.2, Bool.true_and]
  simp only [decide_eq_true_eq]

/-- The record that is credited is the one for the key of the call. -/
theorem pending_modify {key other : Key} {difficulty : Rat}
    {workers : List YaampWorker} {position : Nat}
    (found :
      workers.findIdx? (YaampWorker.live other) = some position) :
    pending key
        (workers.modify position (YaampWorker.addDifficulty difficulty)) =
      pending key workers + if other = key then difficulty else 0 := by
  induction workers generalizing position with
  | nil => exact absurd found (by simp)
  | cons worker workers ih =>
      rw [List.findIdx?_cons] at found
      split at found
      · rename_i own
        cases found
        rw [List.modify_zero_cons, pending_cons, pending_cons,
          live_addDifficulty]
        have same := @eq_of_live key other worker own
        split at same
        · split at same
          · rename_i live keys
            rw [if_pos live, if_pos live, if_pos keys]
            change worker.difficulty + difficulty + _ = _
            ring
          · exact absurd same one_ne_zero
        · split at same
          · exact absurd same.symm one_ne_zero
          · rename_i dead keys
            rw [if_neg dead, if_neg dead, if_neg keys, add_zero]
      · obtain ⟨rest, foundRest, rfl⟩ := Option.map_eq_some_iff.mp found
        rw [List.modify_succ_cons, pending_cons, pending_cons, ih foundRest,
          add_assoc]

theorem newWorker_live (config : Config) (client : YaampClient)
    (job : Option YaampJob) (valid : Bool) (shareDiff : Rat)
    (errorNumber : Int) (key : Key) :
    (newWorker config client job valid shareDiff errorNumber).live key =
      decide (keyOf client job valid = key) :=
  rfl

theorem pending_shareAddWorker (config : Config) (client : YaampClient)
    (job : Option YaampJob) (valid : Bool) (shareDiff : Rat)
    (errorNumber : Int) (workers : List YaampWorker) (key : Key) :
    pending key
        (shareAddWorker config client job valid shareDiff errorNumber
          workers) =
      pending key workers +
        if keyOf client job valid = key then config.credit client valid
        else 0 := by
  rw [shareAddWorker]
  split
  · rename_i position found
    rw [shareFindWorker, isFor_eq_live] at found
    exact pending_modify found
  · rw [pending_append, pending_cons, live_addDifficulty, newWorker_live]
    congr 1
    change (if _ then (0 : Rat) + _ else 0) + pending key [] = _
    rw [zero_add]
    simp [pending]

theorem work_shareAdd (config : Config) (key : Key) (client : YaampClient)
    (job : Option YaampJob) (valid : Bool)
    (extranonce2 ntime nonce : CString) (shareDiff : Rat)
    (errorNumber : Int) :
    Call.work config key
        (.shareAdd client job valid extranonce2 ntime nonce shareDiff
          errorNumber) =
      if keyOf client job valid = key then config.credit client valid
      else 0 := by
  rw [Call.work, Config.credit, ite_and]

/-! ## Calls of `share_write` -/

namespace Writer

/-- The rows written so far, with those in the buffer. -/
def rows (writer : Writer) : List Row :=
  writer.queries.flatten ++ writer.buffer

/-- The count is that of the buffer, and only full queries were sent. -/
structure Counted (writer : Writer) : Prop where
  count : writer.count = writer.buffer.length
  room : writer.buffer.length < 1000
  full : ∀ query ∈ writer.queries, query.length = 1000

theorem counted_initial : initial.Counted where
  count := rfl
  room := by decide
  full := fun _ member => absurd member (by simp [initial])

theorem rows_write (row : Row) (writer : Writer) :
    (writer.write row).rows = writer.rows ++ [row] := by
  rw [write]
  split
  · rw [rows, List.flatten_append, List.flatten_singleton, List.append_nil,
      rows, List.append_assoc]
  · rw [rows, rows, List.append_assoc]

theorem Counted.write {writer : Writer} (counted : writer.Counted)
    (row : Row) : (writer.write row).Counted := by
  rw [Writer.write]
  have length : (writer.buffer ++ [row]).length = writer.count + 1 := by
    rw [List.length_append, counted.count]
    rfl
  split
  · rename_i last
    refine ⟨rfl, Nat.zero_lt_succ 999, ?_⟩
    intro query member
    rcases List.mem_append.mp member with old | new
    · exact counted.full query old
    · rw [List.mem_singleton.mp new, length]
      have room := counted.room
      rw [← counted.count] at room
      omega
  · refine ⟨length.symm, ?_, counted.full⟩
    rw [length]
    omega

theorem flatten_finish {writer : Writer} (counted : writer.Counted) :
    writer.finish.flatten = writer.rows := by
  rw [finish, rows]
  split
  · rename_i empty
    have empty : writer.buffer = [] :=
      List.length_eq_zero_iff.mp (counted.count.symm.trans empty)
    rw [empty, List.append_nil]
  · rw [List.flatten_append, List.flatten_singleton]

/-- No query is empty, and none has more than a thousand rows. -/
theorem length_finish {writer : Writer} (counted : writer.Counted)
    {query : List Row} (member : query ∈ writer.finish) :
    0 < query.length ∧ query.length ≤ 1000 := by
  rw [finish] at member
  have sent : ∀ query ∈ writer.queries,
      0 < query.length ∧ query.length ≤ 1000 := by
    intro query member
    rw [counted.full query member]
    decide
  split at member
  · exact sent query member
  · rename_i left
    rcases List.mem_append.mp member with old | new
    · exact sent query old
    · rw [List.mem_singleton.mp new]
      have count := counted.count
      have room := counted.room
      omega

end Writer

section Write

variable (row : YaampWorker → Row)

theorem counted_writeWorkers {writer : Writer} (counted : writer.Counted)
    (workers : List YaampWorker) :
    (writeWorkers row writer workers).1.Counted := by
  induction workers generalizing writer with
  | nil =>
      exact counted
  | cons worker workers ih =>
      rw [writeWorkers]
      split
      · exact ih counted
      · split
        · exact ih counted
        · exact ih (counted.write (row worker))

theorem rows_writeWorkers (writer : Writer) (workers : List YaampWorker) :
    (writeWorkers row writer workers).1.rows =
      writer.rows ++ (workers.filter YaampWorker.writable).map row := by
  induction workers generalizing writer with
  | nil =>
      exact (List.append_nil _).symm
  | cons worker workers ih =>
      rw [writeWorkers, List.filter_cons, YaampWorker.writable]
      split
      · rename_i deleted
        rw [deleted]
        exact ih writer
      · rename_i alive
        rw [Bool.eq_false_of_not_eq_true alive]
        split
        · rename_i zero
          rw [zero]
          exact ih writer
        · rename_i nonzero
          rw [if_pos (by simp [nonzero]), List.map_cons]
          exact (ih (writer.write (row worker))).trans (by
            rw [Writer.rows_write, List.append_assoc, List.singleton_append])

theorem deleted_writeWorkers (writer : Writer)
    (workers : List YaampWorker) :
    ∀ worker ∈ (writeWorkers row writer workers).2,
      worker.deleted = true := by
  induction workers generalizing writer with
  | nil =>
      exact fun _ member => absurd member (by simp [writeWorkers])
  | cons worker workers ih =>
      rw [writeWorkers]
      split
      · rename_i deleted
        exact List.forall_mem_cons.mpr ⟨deleted, ih writer⟩
      · split
        · exact List.forall_mem_cons.mpr ⟨rfl, ih writer⟩
        · exact List.forall_mem_cons.mpr ⟨rfl, ih _⟩

end Write

/--
`share_write` writes every record that is not deleted and has a worker number
exactly once, in queries of at most a thousand, and leaves none to write.
-/
structure WrittenOnce (config : Config) (now : Int)
    (workers : List YaampWorker) : Prop where
  rows :
    (shareWrite config now workers).1.flatten =
      (workers.filter YaampWorker.writable).map (YaampWorker.row config now)
  batches :
    ∀ query ∈ (shareWrite config now workers).1,
      0 < query.length ∧ query.length ≤ 1000
  deleted :
    ∀ worker ∈ (shareWrite config now workers).2, worker.deleted = true

theorem writtenOnce (config : Config) (now : Int)
    (workers : List YaampWorker) : WrittenOnce config now workers where
  rows := by
    rw [shareWrite,
      Writer.flatten_finish
        (counted_writeWorkers _ Writer.counted_initial workers),
      rows_writeWorkers]
    rfl
  batches := fun _ member =>
    Writer.length_finish
      (counted_writeWorkers _ Writer.counted_initial workers) member
  deleted := deleted_writeWorkers _ _ workers

theorem filter_live_of_deleted {key : Key} {workers : List YaampWorker}
    (deleted : ∀ worker ∈ workers, worker.deleted = true) :
    workers.filter (YaampWorker.live key) = [] := by
  rw [List.filter_eq_nil_iff]
  intro worker member
  rw [YaampWorker.live, deleted worker member]
  exact Bool.false_ne_true

/-- The rows for a key have the difficulty of the records for it. -/
theorem written_rows {key : Key} (numbered : key.workerid ≠ 0)
    (config : Config) (now : Int) (workers : List YaampWorker) :
    written key
        ((workers.filter YaampWorker.writable).map
          (YaampWorker.row config now)) =
      pending key workers := by
  rw [written, pending, List.filter_map, List.map_map, List.filter_filter]
  congr 2
  apply List.filter_congr
  intro worker _
  rw [YaampWorker.live, YaampWorker.writable, Bool.eq_iff_iff]
  simp only [Function.comp_apply, Bool.and_eq_true, decide_eq_true_eq,
    bne_iff_ne]
  constructor
  · rintro ⟨same, alive, -⟩
    exact ⟨alive, same⟩
  · rintro ⟨alive, same⟩
    refine ⟨same, alive, ?_⟩
    rw [← same] at numbered
    exact numbered

theorem written_append (key : Key) (left right : List Row) :
    written key (left ++ right) = written key left + written key right := by
  rw [written, List.filter_append, List.map_append, List.sum_append]
  rfl

/-! ## Freeing deleted records -/

theorem live_release (key : Key) (worker : YaampWorker) :
    (worker.setHeader worker.toYaampObject.release).live key =
      worker.live key := by
  rw [YaampWorker.live, YaampWorker.live]
  congr 2
  exact YaampObject.release_deleted worker.toYaampObject

/-- `object_prune` frees no record that is not deleted. -/
theorem filter_live_pruneWorkers (key : Key) (workers : List YaampWorker) :
    ((objectPrune YaampWorker.toYaampObject YaampWorker.setHeader
        workers).filter (YaampWorker.live key)).map YaampWorker.difficulty =
      (workers.filter (YaampWorker.live key)).map
        YaampWorker.difficulty := by
  rw [objectPrune]
  induction workers with
  | nil => rfl
  | cons worker workers ih =>
      rw [List.filterMap_cons, pruneStep, List.filter_cons]
      by_cases freed : worker.toYaampObject.prunable = true
      · have dead : worker.live key = false := by
          rw [YaampObject.prunable, Bool.and_eq_true] at freed
          rw [YaampWorker.live, freed.1]
          rfl
        rw [if_pos freed, dead]
        exact ih
      · rw [if_neg freed]
        dsimp only
        rw [List.filter_cons, live_release]
        split
        · rw [List.map_cons, List.map_cons, ih]
          rfl
        · exact ih

/-! ## Runs -/

/-- What is written and pending for a key, and that one record is pending. -/
structure Conserved (key : Key) (total : Rat) (state : State) : Prop where
  credit :
    written key state.queries.flatten + pending key state.workers = total
  unique : (state.workers.filter (YaampWorker.live key)).length ≤ 1

namespace Conserved

variable {config : Config} {key : Key} {total : Rat} {state : State}

theorem initial (key : Key) : Conserved key 0 State.initial where
  credit := by simp [written, pending, State.initial]
  unique := Nat.zero_le 1

/-- There is a record for the key before, or the new one is the only one. -/
theorem unique_shareAddWorker (conserved : Conserved key total state)
    (client : YaampClient) (job : Option YaampJob) (valid : Bool)
    (shareDiff : Rat) (errorNumber : Int) :
    ((shareAddWorker config client job valid shareDiff errorNumber
        state.workers).filter (YaampWorker.live key)).length ≤ 1 := by
  rw [shareAddWorker, shareFindWorker, isFor_eq_live]
  split
  · rename_i position found
    have kept : ∀ (workers : List YaampWorker) (position : Nat),
        ((workers.modify position
            (YaampWorker.addDifficulty (config.credit client valid))).filter
              (YaampWorker.live key)).length =
          (workers.filter (YaampWorker.live key)).length := by
      intro workers
      induction workers with
      | nil => exact fun _ => by rw [List.modify_nil]
      | cons worker workers ih =>
          intro position
          cases position with
          | zero =>
              rw [List.modify_zero_cons, List.filter_cons, List.filter_cons,
                live_addDifficulty]
              split <;> rfl
          | succ position =>
              rw [List.modify_succ_cons, List.filter_cons, List.filter_cons]
              split
              · rw [List.length_cons, List.length_cons, ih]
              · exact ih position
    rw [kept]
    exact conserved.unique
  · rename_i missing
    rw [List.filter_append, List.length_append]
    have one :
        ([(newWorker config client job valid shareDiff
              errorNumber).addDifficulty
            (config.credit client valid)].filter
              (YaampWorker.live key)).length ≤ 1 :=
      List.length_filter_le ..
    by_cases same : keyOf client job valid = key
    · rw [same, List.findIdx?_eq_none_iff] at missing
      rw [List.filter_eq_nil_iff.mpr fun worker member =>
        Bool.not_eq_true _ ▸ missing worker member]
      rw [List.length_nil, Nat.zero_add]
      exact one
    · rw [List.filter_cons, live_addDifficulty, newWorker_live,
        decide_eq_false same]
      exact conserved.unique

theorem step (numbered : key.workerid ≠ 0)
    (conserved : Conserved key total state) (call : Call) :
    Conserved key (total + call.work config key)
      (Worker.step config state call) := by
  cases call with
  | shareAdd client job valid extranonce2 ntime nonce shareDiff
      errorNumber =>
      refine ⟨?_, conserved.unique_shareAddWorker ..⟩
      rw [work_shareAdd, Worker.step, pending_shareAddWorker, ← add_assoc,
        conserved.credit]
  | shareWrite now =>
      have once := writtenOnce config now state.workers
      have dropped := @filter_live_of_deleted key _ once.deleted
      have spent :
          pending key (shareWrite config now state.workers).2 = 0 := by
        rw [pending, dropped, List.map_nil, List.sum_nil]
      refine ⟨?_, ?_⟩
      · rw [Worker.step, show Call.work config key (.shareWrite now) = 0 from
          rfl, add_zero]
        dsimp only
        rw [List.flatten_append, once.rows, written_append,
          written_rows numbered, spent, add_zero]
        exact conserved.credit
      · rw [Worker.step]
        dsimp only
        rw [dropped]
        exact Nat.zero_le 1
  | pruneWorkers =>
      refine ⟨?_, ?_⟩
      · rw [Worker.step, show Call.work config key .pruneWorkers = 0 from rfl,
          add_zero, pending, filter_live_pruneWorkers]
        exact conserved.credit
      · have length :=
          congrArg List.length (filter_live_pruneWorkers key state.workers)
        rw [List.length_map, List.length_map] at length
        exact length.trans_le conserved.unique

end Conserved

theorem conserved_after (config : Config) {key : Key}
    (numbered : key.workerid ≠ 0) (calls : List Call) :
    Conserved key (credited config key calls)
      (Run.after (step config) State.initial calls) := by
  have general : ∀ (calls : List Call) (total : Rat) (state : State),
      Conserved key total state →
        Conserved key (total + credited config key calls)
          (Run.after (step config) state calls) := by
    intro calls
    induction calls with
    | nil =>
        intro total state conserved
        rw [credited, List.map_nil, List.sum_nil, add_zero]
        exact conserved
    | cons call calls ih =>
        intro total state conserved
        rw [credited, List.map_cons, List.sum_cons, ← add_assoc]
        exact ih _ _ (conserved.step numbered call)
  have run := general calls 0 State.initial (Conserved.initial key)
  rw [zero_add] at run
  exact run

/--
After any calls, the credit of every key with a worker number is in the rows
and in its one record, and the next `share_write` writes every record once.
-/
theorem credit_conserved (config : Config) (calls : List Call) :
    (∀ key : Key, key.workerid ≠ 0 →
      Conserved key (credited config key calls)
        (Run.after (step config) State.initial calls)) ∧
      ∀ now, WrittenOnce config now
        (Run.after (step config) State.initial calls).workers :=
  ⟨fun _ numbered => conserved_after config numbered calls,
    fun now => writtenOnce config now _⟩

end YiimpStratum.Worker
