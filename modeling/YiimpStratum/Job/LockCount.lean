import YiimpStratum.Job.Handlers

/-!
# Lock counts of jobs

The lock count of a job is the number of handlers that have found it with lock
and not yet unlocked it.  A handler takes its lock in the step that starts it
and gives it back in the step that ends it, so it is enough to know that every
other step of a handler keeps the job that it holds.
-/

namespace YiimpStratum.Job

/-! ## Jobs under a change of headers -/

/-- The job is in the list, so it was not freed. -/
def Listed (jobs : List YaampJob) (id : Nat) : Prop :=
  ∃ job ∈ jobs, job.id = id

/-- A job after a change is the changed one or an old one. -/
theorem mem_modifyJob
    {change : YaampObject → YaampObject} {id : Nat} {jobs : List YaampJob}
    {job : YaampJob} (listed : job ∈ modifyJob change id jobs) :
    ∃ old ∈ jobs,
      (old.id = id ∧ job = old.setHeader (change old.toYaampObject)) ∨
        old.id ≠ id ∧ job = old := by
  obtain ⟨old, oldListed, changed⟩ := List.mem_map.mp listed
  refine ⟨old, oldListed, ?_⟩
  split at changed
  · rename_i same
    exact Or.inl ⟨same, changed.symm⟩
  · rename_i other
    exact Or.inr ⟨other, changed.symm⟩

/-- A change of headers that keeps the numbers. -/
theorem ids_modifyJob
    (change : YaampObject → YaampObject)
    (sameId : ∀ object, (change object).id = object.id)
    (id : Nat) (jobs : List YaampJob) :
    (modifyJob change id jobs).map (fun job => job.id) =
      jobs.map fun job => job.id := by
  rw [modifyJob, List.map_map]
  apply List.map_congr_left
  intro job _
  rw [Function.comp_apply]
  split
  · exact sameId job.toYaampObject
  · rfl

/-- A job is listed when its number is. -/
theorem listed_iff_mem_ids {jobs : List YaampJob} {id : Nat} :
    Listed jobs id ↔ id ∈ jobs.map fun job => job.id := by
  rw [Listed, List.mem_map]

/-- A change that keeps the number keeps what is listed. -/
theorem listed_modifyJob_iff
    {change : YaampObject → YaampObject}
    (sameId : ∀ object, (change object).id = object.id)
    {id other : Nat} {jobs : List YaampJob} :
    Listed (modifyJob change id jobs) other ↔ Listed jobs other := by
  rw [listed_iff_mem_ids, ids_modifyJob change sameId, ← listed_iff_mem_ids]

/-- A job is found when it is listed. -/
theorem jobFind_isSome_iff {server : Server} {id : Nat} :
    (server.jobFind id).isSome ↔ Listed server.jobs id :=
  objectFind_isSome_iff

/-- Each job keeps its number and its coin, and none is undeleted. -/
structure Refers (jobs changed : List YaampJob) : Prop where
  ids :
    changed.map (fun job => job.id) = jobs.map fun job => job.id
  old :
    ∀ job ∈ changed, ∃ old ∈ jobs,
      job.id = old.id ∧ job.coind = old.coind ∧
        (job.deleted = false → old.deleted = false)

/-- Each job keeps its lock as well. -/
structure Marked (jobs marked : List YaampJob) : Prop
    extends Refers jobs marked where
  counts :
    ∀ job ∈ marked, ∃ old ∈ jobs,
      job.id = old.id ∧ job.lockCount = old.lockCount ∧
        job.unlock = old.unlock

/-- A change of headers that keeps numbers and marks. -/
theorem refers_modifyJob
    (change : YaampObject → YaampObject)
    (sameId : ∀ object, (change object).id = object.id)
    (kept :
      ∀ object, (change object).deleted = false → object.deleted = false)
    (id : Nat) (jobs : List YaampJob) :
    Refers jobs (modifyJob change id jobs) where
  ids := ids_modifyJob change sameId id jobs
  old := by
    intro job listed
    obtain ⟨old, oldListed, ⟨-, rfl⟩ | ⟨-, rfl⟩⟩ := mem_modifyJob listed
    · exact ⟨old, oldListed, sameId old.toYaampObject, rfl,
        kept old.toYaampObject⟩
    · exact ⟨job, oldListed, rfl, rfl, fun alive => alive⟩

/-- Jobs refer to themselves. -/
theorem Refers.refl (jobs : List YaampJob) : Refers jobs jobs where
  ids := rfl
  old := fun job listed => ⟨job, listed, rfl, rfl, fun alive => alive⟩

theorem delete_id (object : YaampObject) : object.delete.id = object.id :=
  rfl

/-- Deleting a job only marks it. -/
theorem marked_delete (id : Nat) (jobs : List YaampJob) :
    Marked jobs (modifyJob YaampObject.delete id jobs) where
  toRefers :=
    refers_modifyJob YaampObject.delete delete_id
      (fun object alive => absurd alive (by simp [YaampObject.delete]))
      id jobs
  counts := by
    intro job listed
    obtain ⟨old, oldListed, ⟨-, rfl⟩ | ⟨-, rfl⟩⟩ := mem_modifyJob listed
    · exact ⟨old, oldListed, rfl, rfl, rfl⟩
    · exact ⟨job, oldListed, rfl, rfl, rfl⟩

/-- Marking no job is marking. -/
theorem Marked.refl (jobs : List YaampJob) : Marked jobs jobs where
  toRefers := Refers.refl jobs
  counts := fun job listed => ⟨job, listed, rfl, rfl, rfl⟩

/-- Jobs are marked one after the other. -/
theorem Marked.trans
    {jobs middle marked : List YaampJob}
    (first : Marked jobs middle) (second : Marked middle marked) :
    Marked jobs marked where
  ids := second.ids.trans first.ids
  old := by
    intro job listed
    obtain ⟨between, middleListed, sameId, coind, alive⟩ :=
      second.old job listed
    obtain ⟨old, oldListed, sameId', coind', alive'⟩ :=
      first.old between middleListed
    exact ⟨old, oldListed, sameId.trans sameId', coind.trans coind',
      fun deleted => alive' (alive deleted)⟩
  counts := by
    intro job listed
    obtain ⟨between, middleListed, sameId, lock, unlock⟩ :=
      second.counts job listed
    obtain ⟨old, oldListed, sameId', lock', unlock'⟩ :=
      first.counts between middleListed
    exact ⟨old, oldListed, sameId.trans sameId', lock.trans lock',
      unlock.trans unlock'⟩

/-- Deleting the job of a coin only marks it. -/
theorem marked_deleteCoindJob (coind : YaampCoind) (jobs : List YaampJob) :
    Marked jobs (deleteCoindJob coind jobs) := by
  rw [deleteCoindJob]
  split
  · exact marked_delete _ jobs
  · exact Marked.refl jobs

/-- Deleting the jobs of coins only marks them. -/
theorem marked_foldr_deleteCoindJob
    (coinds : List YaampCoind) (jobs : List YaampJob) :
    Marked jobs (coinds.foldr deleteCoindJob jobs) := by
  induction coinds with
  | nil =>
      exact Marked.refl jobs
  | cons coind coinds ih =>
      exact ih.trans (marked_deleteCoindJob coind _)

/-- No job is unlocked by a pass, so a pass only removes the prunable ones. -/
theorem mem_objectPrune_jobs_iff
    {jobs : List YaampJob} (permanent : ∀ job ∈ jobs, job.unlock = false)
    {job : YaampJob} :
    job ∈ objectPrune YaampJob.toYaampObject YaampJob.setHeader jobs ↔
      job ∈ jobs ∧ job.prunable = false := by
  have released (old : YaampJob) (listed : old ∈ jobs) :
      old.setHeader old.toYaampObject.release = old := by
    rw [YaampObject.release, if_neg (by simp [permanent old listed])]
    rfl
  rw [mem_objectPrune]
  constructor
  · rintro ⟨old, listed, kept, rfl⟩
    rw [released old listed]
    exact ⟨listed, kept⟩
  · rintro ⟨listed, kept⟩
    exact ⟨job, listed, kept, released job listed⟩

/-! ## Holders -/

namespace Server

/-- The number of handlers that hold the job. -/
def holders (server : Server) (id : Nat) : Nat :=
  server.threads.countP fun position => position.holds == some id

end Server

section Next

variable {server : Server} {passed : Bool} {position : Position}

/-- Every step but the unlocking keeps the job that the handler holds. -/
theorem holds_next (locked : ∀ job, position ≠ .unlocking job) :
    (server.next passed position).holds = position.holds := by
  cases position with
  | idle => rfl
  | found function job =>
      rw [Server.next]
      split
      · rfl
      · cases function <;> rfl
  | decred job => rfl
  | checking job checks =>
      cases checks with
      | nil => rfl
      | cons check checks =>
          rw [Server.next]
          split <;> rfl
  | error job check =>
      rw [Server.next]
      split <;> rfl
  | accepted job =>
      rw [Server.next]
      split <;> rfl
  | auxs job =>
      rw [Server.next]
      split <;> rfl
  | submitting job =>
      rw [Server.next]
      split <;> rfl
  | confirming job => rfl
  | recording job => rfl
  | sending job => rfl
  | unlocking job => exact absurd rfl (locked job)
  | getLast again =>
      rw [Server.next]
      split <;> rfl
  | scanning again jobs =>
      cases jobs with
      | nil =>
          rw [Server.next]
          split <;> rfl
      | cons job jobs =>
          rw [Server.next]
          split <;> rfl
  | visiting again job jobs =>
      rw [Server.next]
      split <;> rfl
  | last job => rfl

end Next

/-- The number of holders when one thread changes its position. -/
theorem holders_setThread
    {server : Server} {i : Nat} {old : Position}
    (found : server.threads[i]? = some old) (new : Position) (id : Nat) :
    (server.setThread i new).holders id +
        (if old.holds = some id then 1 else 0) =
      server.holders id + if new.holds = some id then 1 else 0 := by
  obtain ⟨inRange, rfl⟩ := List.getElem?_eq_some_iff.mp found
  have counted :
      (if (server.threads[i].holds == some id) = true then 1 else 0) ≤
        server.threads.countP fun position => position.holds == some id :=
    List.boole_getElem_le_countP
      (p := fun position => position.holds == some id) inRange
  rw [Server.holders, Server.setThread, List.countP_set inRange,
    Server.holders]
  simp only [beq_iff_eq] at counted ⊢
  omega

/-- A thread that holds the same job changes no count. -/
theorem holders_setThread_of_same
    {server : Server} {i : Nat} {old new : Position}
    (found : server.threads[i]? = some old) (same : new.holds = old.holds)
    (id : Nat) :
    (server.setThread i new).holders id = server.holders id := by
  have counted := holders_setThread found new id
  rw [same] at counted
  omega

/-! ## The invariant -/

/-- Lock counts are numbers of holders, and a held job is not freed. -/
structure LockInvariant (server : Server) : Prop where
  counted : ∀ job ∈ server.jobs, job.lockCount = server.holders job.id
  held :
    ∀ position ∈ server.threads, ∀ id, position.holds = some id →
      Listed server.jobs id
  numbered : ∀ job ∈ server.jobs, job.id ≤ server.nextJobId
  permanent : ∀ job ∈ server.jobs, job.unlock = false

namespace LockInvariant

variable {server : Server}

/-- At the start no job is locked. -/
theorem initial : LockInvariant Server.initial := by
  constructor <;> simp [Server.initial]

/-- Nobody holds a job whose number was not given out yet. -/
theorem holders_unnumbered
    (invariant : LockInvariant server) {id : Nat}
    (unnumbered : server.nextJobId < id) : server.holders id = 0 := by
  rw [Server.holders, List.countP_eq_zero]
  intro position running holding
  obtain ⟨job, listed, rfl⟩ :=
    invariant.held position running id (by simpa using holding)
  exact absurd (invariant.numbered job listed) (by omega)

/-- Marking jobs as deleted keeps the invariant. -/
theorem mark
    (invariant : LockInvariant server) {marked : List YaampJob}
    (marks : Marked server.jobs marked) :
    LockInvariant { server with jobs := marked } where
  counted := by
    intro job listed
    obtain ⟨old, oldListed, sameId, sameCount, -⟩ := marks.counts job listed
    rw [sameCount, sameId]
    exact invariant.counted old oldListed
  held := by
    intro position running id holding
    rw [listed_iff_mem_ids, marks.ids, ← listed_iff_mem_ids]
    exact invariant.held position running id holding
  numbered := by
    intro job listed
    obtain ⟨old, oldListed, sameId, -⟩ := marks.counts job listed
    rw [sameId]
    exact invariant.numbered old oldListed
  permanent := by
    intro job listed
    obtain ⟨old, oldListed, -, -, sameUnlock⟩ := marks.counts job listed
    rw [sameUnlock]
    exact invariant.permanent old oldListed

/-- A new job gets the next number and has no lock. -/
theorem append
    (invariant : LockInvariant server) (coind : Option Nat) :
    LockInvariant
      { server with
        jobs :=
          server.jobs ++ [YaampJob.create (server.nextJobId + 1) coind]
        nextJobId := server.nextJobId + 1 } where
  counted := by
    intro job listed
    rcases List.mem_append.mp listed with old | new
    · exact invariant.counted job old
    · rw [List.mem_singleton.mp new]
      exact congrArg Nat.cast
        (invariant.holders_unnumbered (Nat.lt_succ_self _)).symm
  held := by
    intro position running id holding
    obtain ⟨job, listed, same⟩ :=
      invariant.held position running id holding
    exact ⟨job, List.mem_append_left _ listed, same⟩
  numbered := by
    intro job listed
    rcases List.mem_append.mp listed with old | new
    · exact Nat.le_succ_of_le (invariant.numbered job old)
    · rw [List.mem_singleton.mp new]
      exact Nat.le_refl _
  permanent := by
    intro job listed
    rcases List.mem_append.mp listed with old | new
    · exact invariant.permanent job old
    · rw [List.mem_singleton.mp new]
      rfl

/-- A thread moves between positions that hold the same job. -/
theorem setThread
    (invariant : LockInvariant server) {i : Nat} {old new : Position}
    (found : server.threads[i]? = some old) (same : new.holds = old.holds) :
    LockInvariant (server.setThread i new) where
  counted := by
    intro job listed
    rw [holders_setThread_of_same found same]
    exact invariant.counted job listed
  held := by
    intro position running id holding
    rcases List.mem_or_eq_of_mem_set running with before | rfl
    · exact invariant.held position before id holding
    · rw [same] at holding
      exact invariant.held old (List.mem_of_getElem? found) id holding
  numbered := invariant.numbered
  permanent := invariant.permanent

/-- A lock count and the position of a thread change together. -/
theorem changeLock
    (invariant : LockInvariant server) {i : Nat} {new : Position}
    {change : YaampObject → YaampObject} {jobid : Nat}
    (sameId : ∀ object, (change object).id = object.id)
    (sameUnlock : ∀ object, (change object).unlock = object.unlock)
    (heldAfter :
      ∀ id, new.holds = some id → Listed server.jobs id)
    (balanced :
      ∀ object : YaampObject, object.id = jobid →
        object.lockCount = server.holders jobid →
          (change object).lockCount =
            (server.setThread i new).holders jobid)
    (others :
      ∀ id, id ≠ jobid →
        (server.setThread i new).holders id = server.holders id) :
    LockInvariant
      { server.setThread i new with
        jobs := modifyJob change jobid server.jobs } where
  counted := by
    intro job listed
    obtain ⟨before, beforeListed, ⟨rfl, rfl⟩ | ⟨other, rfl⟩⟩ :=
      mem_modifyJob listed
    · have count := invariant.counted before beforeListed
      rw [YaampJob.setHeader]
      rw [sameId]
      exact balanced before.toYaampObject rfl count
    · have same := others job.id other
      have count := invariant.counted job beforeListed
      rw [← same] at count
      exact count
  held := by
    intro position running id holding
    rw [listed_modifyJob_iff sameId]
    rcases List.mem_or_eq_of_mem_set running with before | rfl
    · exact invariant.held position before id holding
    · exact heldAfter id holding
  numbered := by
    intro job listed
    obtain ⟨before, beforeListed, ⟨-, rfl⟩ | ⟨-, rfl⟩⟩ :=
      mem_modifyJob listed
    · rw [YaampJob.setHeader]
      rw [sameId]
      exact invariant.numbered before beforeListed
    · exact invariant.numbered job beforeListed
  permanent := by
    intro job listed
    obtain ⟨before, beforeListed, ⟨-, rfl⟩ | ⟨-, rfl⟩⟩ :=
      mem_modifyJob listed
    · rw [YaampJob.setHeader]
      rw [sameUnlock]
      exact invariant.permanent before beforeListed
    · exact invariant.permanent job beforeListed

/-- A thread that finds a job holds one lock of it. -/
theorem findLocked
    (invariant : LockInvariant server) {i jobid : Nat}
    {start missing : Position} (holding : start.holds = some jobid)
    (free : missing.holds = none) :
    LockInvariant (server.findLocked i jobid start missing) := by
  rw [Server.findLocked]
  split
  · rename_i starts
    have idle := starts.1
    split
    · rename_i isFound
      have counts (id : Nat) :
          (server.setThread i start).holders id =
            server.holders id + if start.holds = some id then 1 else 0 :=
        holders_setThread idle start id
      apply invariant.changeLock
      · exact fun _ => rfl
      · exact fun _ => rfl
      · intro id same
        rw [holding] at same
        rw [← Option.some.inj same]
        exact jobFind_isSome_iff.mp isFound
      · intro object _ count
        rw [counts, if_pos holding, YaampObject.objectLock, count]
        rfl
      · intro id other
        rw [counts, holding, if_neg (by simpa using other.symm)]
        rfl
    · exact invariant.setThread idle (by rw [free]; rfl)
  · exact invariant

/-- A thread that goes on keeps the counts. -/
theorem proceed
    (invariant : LockInvariant server) (i : Nat) (passed : Bool) :
    LockInvariant (server.proceed i passed) := by
  rw [Server.proceed]
  split
  · exact invariant
  · rename_i position running
    by_cases unlocks : ∃ job, position = .unlocking job
    · obtain ⟨job, rfl⟩ := unlocks
      have counts (id : Nat) :
          (server.setThread i .idle).holders id +
              (if some job = some id then 1 else 0) =
            server.holders id :=
        holders_setThread running .idle id
      apply invariant.changeLock
      · exact fun _ => rfl
      · exact fun _ => rfl
      · intro id holding
        exact absurd holding (by simp [Server.next, Position.holds])
      · intro object _ count
        have one := counts job
        rw [if_pos rfl] at one
        rw [YaampObject.objectUnlock, count]
        simp only [Server.next]
        omega
      · intro id other
        have unheld := counts id
        rw [if_neg (by simpa using other.symm)] at unheld
        exact unheld
    · have keeps : ∀ job, position ≠ .unlocking job :=
        fun job same => unlocks ⟨job, same⟩
      have sameJobs : server.jobsAfter position = server.jobs := by
        rw [Server.jobsAfter]
        exact keeps
      rw [sameJobs]
      exact invariant.setThread running (holds_next keeps)

/-- A new job of a coin is not locked. -/
theorem coindCreateJob
    (invariant : LockInvariant server) (coind : Nat) :
    LockInvariant (server.coindCreateJob coind) := by
  rw [Server.coindCreateJob]
  split
  · exact invariant
  · rename_i found _
    split
    · exact invariant
    · have marked := invariant.mark (marked_deleteCoindJob found server.jobs)
      have appended := marked.append (some coind)
      exact
        ⟨appended.counted, appended.held, appended.numbered,
          appended.permanent⟩

/-- A new job of a remote is not locked. -/
theorem remoteCreateJob (invariant : LockInvariant server) :
    LockInvariant server.remoteCreateJob := by
  rw [Server.remoteCreateJob]
  split
  · exact invariant
  · exact invariant.append none

/-- A pass frees jobs without holders and leaves the other jobs unchanged. -/
theorem pruneJobs (invariant : LockInvariant server) :
    LockInvariant server.pruneJobs := by
  rw [Server.pruneJobs]
  split
  · exact invariant
  · have kept {job : YaampJob}
        (after :
          job ∈
            objectPrune YaampJob.toYaampObject YaampJob.setHeader
              server.jobs) :
        job ∈ server.jobs :=
      ((mem_objectPrune_jobs_iff invariant.permanent).mp after).1
    refine
      ⟨fun job after => invariant.counted job (kept after), ?_,
        fun job after => invariant.numbered job (kept after),
        fun job after => invariant.permanent job (kept after)⟩
    intro position running id holding
    obtain ⟨job, listed, rfl⟩ :=
      invariant.held position running id holding
    have positive : 0 < server.holders job.id := by
      rw [Server.holders, List.countP_pos_iff]
      exact ⟨position, running, by simp [holding]⟩
    have count := invariant.counted job listed
    have locked : job.lockCount ≠ 0 := by
      omega
    have unpruned : job.prunable = false := by
      simp [YaampObject.prunable, locked]
    exact ⟨job,
      (mem_objectPrune_jobs_iff invariant.permanent).mpr
        ⟨listed, unpruned⟩, rfl⟩

/-- Freeing coins changes no lock. -/
theorem pruneCoinds (invariant : LockInvariant server) :
    LockInvariant server.pruneCoinds := by
  have marked :=
    invariant.mark
      (marked_foldr_deleteCoindJob
        (server.coinds.filter fun coind => coind.prunable) server.jobs)
  exact ⟨marked.counted, marked.held, marked.numbered, marked.permanent⟩

/-- A new thread holds no job. -/
theorem connect (invariant : LockInvariant server) :
    LockInvariant { server with threads := server.threads ++ [.idle] } where
  counted := by
    intro job listed
    have same :
        (Server.holders
            { server with threads := server.threads ++ [.idle] } job.id) =
          server.holders job.id := by
      rw [Server.holders, Server.holders, List.countP_append]
      simp [Position.holds]
    rw [same]
    exact invariant.counted job listed
  held := by
    intro position running id holding
    rcases List.mem_append.mp running with before | new
    · exact invariant.held position before id holding
    · rw [List.mem_singleton.mp new] at holding
      exact absurd holding (by simp [Position.holds])
  numbered := invariant.numbered
  permanent := invariant.permanent

/-- Every step keeps the counts. -/
theorem step (invariant : LockInvariant server) (action : Action) :
    LockInvariant (Job.step server action) := by
  cases action with
  | connect => exact invariant.connect
  | submit i function jobid => exact invariant.findLocked rfl rfl
  | jobSendJobid i jobid again => exact invariant.findLocked rfl rfl
  | jobSendLast i again =>
      rw [Job.step]
      split
      · rename_i idle
        exact invariant.setThread idle rfl
      · exact invariant
  | proceed i passed => exact invariant.proceed i passed
  | coindCreateJob coind => exact invariant.coindCreateJob coind
  | remoteCreateJob => exact invariant.remoteCreateJob
  | deleteJob jobid =>
      exact invariant.mark (marked_delete jobid server.jobs)
  | loadCoind =>
      exact
        ⟨invariant.counted, invariant.held, invariant.numbered,
          invariant.permanent⟩
  | deleteCoind coind =>
      exact
        ⟨invariant.counted, invariant.held, invariant.numbered,
          invariant.permanent⟩
  | pruneJobs => exact invariant.pruneJobs
  | pruneCoinds => exact invariant.pruneCoinds

/-- In every run the counts are those of the holders. -/
theorem run (actions : List Action) :
    LockInvariant (Run.after Job.step Server.initial actions) :=
  Run.invariant_after (fun _ action invariant => invariant.step action)
    initial actions

end LockInvariant

/-! ## Every handler unlocks its job -/

/-- A thread goes on to its next position. -/
theorem proceed_threads
    {server : Server} {i : Nat} {position : Position}
    (running : server.threads[i]? = some position) (passed : Bool) :
    (step server (.proceed i passed)).threads[i]? =
      some (server.next passed position) := by
  obtain ⟨inRange, -⟩ := List.getElem?_eq_some_iff.mp running
  rw [step, Server.proceed, running]
  simp only [Server.setThread]
  rw [List.getElem?_set_self inRange]

end YiimpStratum.Job
