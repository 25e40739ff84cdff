import Mathlib.Data.List.Nodup
import YiimpStratum.Job.LockCount

/-!
# References to jobs and coins

When a handler may read a job, the template of a job or the coin of a job.  The
lock on a job keeps the job, and nothing else: `job_send_last` reads a job
without a lock, and no lock on a job covers its coin.  So a pass over the jobs
must not free a job that `job_send_last` has found, and a pass over the coins
must not free the coin of a job in use.

The handlers that are past their check of `job->deleted` are the ones that
still read the coin.  A job found after its coin was marked is marked itself,
and its handler stops at that check.
-/

namespace YiimpStratum.Job

/-! ## What a handler still needs -/

namespace Position

/-- The job whose coin the handler may still read without another check. -/
def needsCoind : Position → Option Nat
  | .decred job | .checking job _ | .accepted job | .auxs job
  | .submitting job | .confirming job | .recording job
  | .visiting _ job _ => some job
  | .idle | .found _ _ | .error _ _ | .sending _ | .unlocking _
  | .getLast _ | .scanning _ _ | .last _ => none

/-- The jobs that a search through the list still visits. -/
def toVisit : Position → List Nat
  | .scanning _ jobs => jobs
  | .visiting _ job jobs => job :: jobs
  | _ => []

theorem readsJob_cases
    {position : Position} {id : Nat} (reads : position.readsJob = some id) :
    position.holds = some id ∨ id ∈ position.toVisit ∨
      position = .last id := by
  cases position with
  | idle | getLast again => exact absurd reads (by simp [readsJob])
  | scanning again jobs =>
      cases jobs with
      | nil => exact absurd reads (by simp [readsJob])
      | cons job jobs =>
          rw [readsJob, Option.some.injEq] at reads
          simp [toVisit, reads]
  | visiting again job jobs =>
      rw [readsJob, Option.some.injEq] at reads
      simp [toVisit, reads]
  | last job =>
      rw [readsJob, Option.some.injEq] at reads
      simp [reads]
  | found | decred | checking | error | accepted | auxs | submitting
  | confirming | recording | sending | unlocking => exact Or.inl reads

theorem needsCoind_of_readsCoind
    {position : Position} {id : Nat}
    (reads : position.readsCoind = some id) :
    position.needsCoind = some id := by
  cases position with
  | decred | auxs | submitting | confirming | recording | visiting =>
      exact reads
  | idle | found | checking | error | accepted | sending | unlocking
  | getLast | scanning | last => exact absurd reads (by simp [readsCoind])

end Position

section Next

variable {server : Server} {passed : Bool} {position : Position}

/-- A handler comes to need a coin only where it finds `deleted` unset. -/
theorem needsCoind_next
    {id : Nat} (needs : (server.next passed position).needsCoind = some id) :
    position.needsCoind = some id ∨
      position.readsJob = some id ∧ server.jobDeleted id = false := by
  cases position with
  | found function job =>
      rw [Server.next] at needs
      split at needs
      · exact absurd needs (by simp [Position.needsCoind])
      · rename_i alive
        have same : job = id := by
          cases function <;>
            simpa [Position.live, Position.needsCoind] using needs
        rw [← same]
        exact Or.inr ⟨rfl, by simpa using alive⟩
  | error job check =>
      rw [Server.next] at needs
      split at needs
      · exact absurd needs (by simp [Position.needsCoind])
      · rename_i alive
        have same : job = id := by
          simpa [Position.needsCoind] using needs
        rw [← same]
        exact Or.inr ⟨rfl, by simpa using alive⟩
  | scanning again jobs =>
      cases jobs with
      | nil =>
          rw [Server.next] at needs
          split at needs <;>
            exact absurd needs (by simp [Position.needsCoind])
      | cons job jobs =>
          rw [Server.next] at needs
          split at needs
          · exact absurd needs (by simp [Position.needsCoind])
          · rename_i alive
            have same : job = id := by
              simpa [Position.needsCoind] using needs
            rw [← same]
            exact Or.inr ⟨rfl, by simpa using alive⟩
  | decred job => exact Or.inl needs
  | checking job checks =>
      left
      cases checks with
      | nil => exact needs
      | cons check checks =>
          rw [Server.next] at needs
          split at needs
          · exact needs
          · exact absurd needs (by simp [Position.needsCoind])
  | accepted job =>
      left
      rw [Server.next] at needs
      split at needs <;> exact needs
  | auxs job =>
      left
      rw [Server.next] at needs
      split at needs <;> exact needs
  | submitting job =>
      left
      rw [Server.next] at needs
      split at needs <;> exact needs
  | confirming job => exact Or.inl needs
  | visiting again job jobs =>
      rw [Server.next] at needs
      split at needs <;> exact absurd needs (by simp [Position.needsCoind])
  | getLast again =>
      rw [Server.next] at needs
      split at needs <;> exact absurd needs (by simp [Position.needsCoind])
  | idle | recording | sending | unlocking | last =>
      exact absurd needs (by simp [Server.next, Position.needsCoind])

/-- A search visits the jobs that it had before, or the jobs of the list. -/
theorem toVisit_next
    {id : Nat} (visits : id ∈ (server.next passed position).toVisit) :
    id ∈ position.toVisit ∨ Listed server.jobs id := by
  cases position with
  | getLast again =>
      rw [Server.next] at visits
      split at visits
      · exact absurd visits (by simp [Position.toVisit])
      · exact Or.inr (listed_iff_mem_ids.mpr visits)
  | scanning again jobs =>
      left
      cases jobs with
      | nil =>
          rw [Server.next] at visits
          split at visits <;>
            exact absurd visits (by simp [Position.toVisit])
      | cons job jobs =>
          rw [Server.next] at visits
          split at visits
          · exact List.mem_cons_of_mem _ visits
          · exact visits
  | visiting again job jobs =>
      left
      rw [Server.next] at visits
      split at visits
      · exact absurd visits (by simp [Position.toVisit])
      · exact List.mem_cons_of_mem _ visits
  | found function job =>
      rw [Server.next] at visits
      split at visits
      · exact absurd visits (by simp [Position.toVisit])
      · cases function <;>
          exact absurd visits (by simp [Position.live, Position.toVisit])
  | checking job checks =>
      cases checks with
      | nil => exact absurd visits (by simp [Server.next, Position.toVisit])
      | cons check checks =>
          rw [Server.next] at visits
          split at visits <;>
            exact absurd visits (by simp [Position.toVisit])
  | error | accepted | auxs | submitting =>
      rw [Server.next] at visits
      split at visits <;> exact absurd visits (by simp [Position.toVisit])
  | idle | decred | confirming | recording | sending | unlocking | last =>
      exact absurd visits (by simp [Server.next, Position.toVisit])

/-- `job_send_last` goes on with a job that its search visited. -/
theorem next_eq_last
    {id : Nat} (found : server.next passed position = .last id) :
    id ∈ position.toVisit := by
  cases position with
  | visiting again job jobs =>
      rw [Server.next] at found
      split at found
      · rw [Position.last.injEq] at found
        simp [Position.toVisit, found]
      · exact absurd found (by simp)
  | found function job =>
      rw [Server.next] at found
      split at found
      · exact absurd found (by simp)
      · cases function <;> exact absurd found (by simp [Position.live])
  | checking job checks =>
      cases checks with
      | nil => exact absurd found (by simp [Server.next])
      | cons check checks =>
          rw [Server.next] at found
          split at found <;> exact absurd found (by simp)
  | scanning again jobs =>
      cases jobs with
      | nil =>
          rw [Server.next] at found
          split at found <;> exact absurd found (by simp)
      | cons job jobs =>
          rw [Server.next] at found
          split at found <;> exact absurd found (by simp)
  | error | accepted | auxs | submitting | getLast =>
      rw [Server.next] at found
      split at found <;> exact absurd found (by simp)
  | idle | decred | confirming | recording | sending | unlocking | last =>
      exact absurd found (by simp [Server.next])

end Next

/-! ## Valid references -/

/-- The coin is in its list, so it was not freed. -/
def CoindListed (coinds : List YaampCoind) (id : Nat) : Prop :=
  ∃ coind ∈ coinds, coind.id = id

/-- The coin that the job points to was not freed. -/
def CoindKept (server : Server) (id : Nat) : Prop :=
  ∀ job ∈ server.jobs, job.id = id → ∀ coind, job.coind = some coind →
    CoindListed server.coinds coind

/-- Whatever job, template or coin a handler reads next was not freed. -/
structure ReferencesValid (server : Server) : Prop where
  jobs :
    ∀ position ∈ server.threads, ∀ id, position.readsJob = some id →
      Listed server.jobs id
  coinds :
    ∀ position ∈ server.threads, ∀ id, position.readsCoind = some id →
      CoindKept server id

/--
A pass over the jobs frees no job that `job_send_last` has found, a pass over
the coins frees no coin of a job whose handler is past its check of `deleted`.
-/
def Careful (server : Server) : Action → Prop
  | .pruneJobs =>
      server.listEntered = false →
        ∀ job ∈ server.jobs, job.prunable = true →
          .last job.id ∉ server.threads
  | .pruneCoinds =>
      ∀ coind ∈ server.coinds, coind.prunable = true →
        ∀ job ∈ server.jobs, job.coind = some coind.id →
          ∀ position ∈ server.threads,
            position.needsCoind ≠ some job.id
  | _ => True

instance (server : Server) (action : Action) :
    Decidable (Careful server action) :=
  match action with
  | .pruneJobs =>
      inferInstanceAs
        (Decidable
          (server.listEntered = false →
            ∀ job ∈ server.jobs, job.prunable = true →
              .last job.id ∉ server.threads))
  | .pruneCoinds =>
      inferInstanceAs
        (Decidable
          (∀ coind ∈ server.coinds, coind.prunable = true →
            ∀ job ∈ server.jobs, job.coind = some coind.id →
              ∀ position ∈ server.threads,
                position.needsCoind ≠ some job.id))
  | .connect | .submit _ _ _ | .jobSendJobid _ _ _ | .jobSendLast _ _
  | .proceed _ _ | .coindCreateJob _ | .remoteCreateJob | .deleteJob _
  | .loadCoind | .deleteCoind _ => isTrue trivial

/-! ## The invariant -/

/--
A coin points to its only job that is not deleted, and what the handlers still
need is in the lists.
-/
structure ReferenceInvariant (server : Server) : Prop where
  jobsDistinct : (server.jobs.map fun job => job.id).Nodup
  coindsDistinct : (server.coinds.map fun coind => coind.id).Nodup
  coindsNumbered : ∀ coind ∈ server.coinds, coind.id < server.nextCoind
  current :
    ∀ job ∈ server.jobs, job.deleted = false → ∀ id, job.coind = some id →
      ∃ coind ∈ server.coinds, coind.id = id ∧ coind.job = some job.id
  visited :
    ∀ position ∈ server.threads, ∀ id ∈ position.toVisit,
      Listed server.jobs id
  last : ∀ id, .last id ∈ server.threads → Listed server.jobs id
  needed :
    ∀ position ∈ server.threads, ∀ id, position.needsCoind = some id →
      CoindKept server id

namespace ReferenceInvariant

variable {server : Server}

theorem initial : ReferenceInvariant Server.initial := by
  constructor <;> simp [Server.initial]

theorem valid
    (invariant : ReferenceInvariant server) (locks : LockInvariant server) :
    ReferencesValid server where
  jobs := by
    intro position running id reads
    rcases Position.readsJob_cases reads with holding | visits | rfl
    · exact locks.held position running id holding
    · exact invariant.visited position running id visits
    · exact invariant.last id running
  coinds := fun position running id reads =>
    invariant.needed position running id
      (Position.needsCoind_of_readsCoind reads)

/-- A job that is not deleted keeps its coin. -/
theorem coindKept_of_alive
    (invariant : ReferenceInvariant server) {id : Nat}
    (listed : Listed server.jobs id)
    (alive : server.jobDeleted id = false) : CoindKept server id := by
  obtain ⟨found, isFound⟩ :=
    Option.isSome_iff_exists.mp (jobFind_isSome_iff.mpr listed)
  have foundAlive : found.deleted = false := by
    rw [Server.jobDeleted, isFound] at alive
    exact alive
  obtain ⟨foundListed, foundId⟩ := objectFind_eq_some isFound
  intro job jobListed sameId coind points
  have same : job = found :=
    List.inj_on_of_nodup_map invariant.jobsDistinct jobListed foundListed
      (sameId.trans foundId.symm)
  rw [same] at points
  obtain ⟨coin, coinListed, coinId, -⟩ :=
    invariant.current found foundListed foundAlive coind points
  exact ⟨coin, coinListed, coinId⟩

/-- A change of jobs that keeps their numbers, coins and marks. -/
theorem refer
    (invariant : ReferenceInvariant server) {jobs : List YaampJob}
    (refers : Refers server.jobs jobs) :
    ReferenceInvariant { server with jobs := jobs } where
  jobsDistinct := by
    rw [refers.ids]
    exact invariant.jobsDistinct
  coindsDistinct := invariant.coindsDistinct
  coindsNumbered := invariant.coindsNumbered
  current := by
    intro job listed alive id points
    obtain ⟨old, oldListed, sameId, sameCoind, kept⟩ :=
      refers.old job listed
    rw [sameId]
    rw [sameCoind] at points
    exact invariant.current old oldListed (kept alive) id points
  visited := by
    intro position running id visits
    rw [listed_iff_mem_ids, refers.ids, ← listed_iff_mem_ids]
    exact invariant.visited position running id visits
  last := by
    intro id running
    rw [listed_iff_mem_ids, refers.ids, ← listed_iff_mem_ids]
    exact invariant.last id running
  needed := by
    intro position running id needs job listed sameId coind points
    obtain ⟨old, oldListed, oldId, sameCoind, -⟩ := refers.old job listed
    rw [sameCoind] at points
    exact invariant.needed position running id needs old oldListed
      (oldId.symm.trans sameId) coind points

/-- A thread moves to a position whose needs are in the lists. -/
theorem setThread
    (invariant : ReferenceInvariant server) (i : Nat) {new : Position}
    (visited : ∀ id ∈ new.toVisit, Listed server.jobs id)
    (last : ∀ id, new = .last id → Listed server.jobs id)
    (needed : ∀ id, new.needsCoind = some id → CoindKept server id) :
    ReferenceInvariant (server.setThread i new) where
  jobsDistinct := invariant.jobsDistinct
  coindsDistinct := invariant.coindsDistinct
  coindsNumbered := invariant.coindsNumbered
  current := invariant.current
  visited := by
    intro position running id visits
    rcases List.mem_or_eq_of_mem_set running with before | rfl
    · exact invariant.visited position before id visits
    · exact visited id visits
  last := by
    intro id running
    rcases List.mem_or_eq_of_mem_set running with before | same
    · exact invariant.last id before
    · exact last id same.symm
  needed := by
    intro position running id needs
    rcases List.mem_or_eq_of_mem_set running with before | rfl
    · exact invariant.needed position before id needs
    · exact needed id needs

theorem findLocked
    (invariant : ReferenceInvariant server) {i jobid : Nat}
    {start missing : Position}
    (startFree :
      start.toVisit = [] ∧ start.needsCoind = none ∧
        ∀ id, start ≠ .last id)
    (missingFree :
      missing.toVisit = [] ∧ missing.needsCoind = none ∧
        ∀ id, missing ≠ .last id) :
    ReferenceInvariant (server.findLocked i jobid start missing) := by
  have free {position : Position}
      (idle :
        position.toVisit = [] ∧ position.needsCoind = none ∧
          ∀ id, position ≠ .last id) :
      ReferenceInvariant (server.setThread i position) := by
    apply invariant.setThread
    · simp [idle.1]
    · exact fun id same => absurd same (idle.2.2 id)
    · simp [idle.2.1]
  rw [Server.findLocked]
  split
  · split
    · exact
        (free startFree).refer
          (refers_modifyJob YaampObject.objectLock (fun _ => rfl)
            (fun _ alive => alive) jobid _)
    · exact free missingFree
  · exact invariant

theorem proceed
    (invariant : ReferenceInvariant server) (locks : LockInvariant server)
    (i : Nat) (passed : Bool) :
    ReferenceInvariant (server.proceed i passed) := by
  rw [Server.proceed]
  split
  · exact invariant
  · rename_i position found
    have running := List.mem_of_getElem? found
    have moved :
        ReferenceInvariant
          (server.setThread i (server.next passed position)) := by
      apply invariant.setThread
      · intro id visits
        rcases toVisit_next visits with before | listed
        · exact invariant.visited position running id before
        · exact listed
      · intro id same
        exact invariant.visited position running id (next_eq_last same)
      · intro id needs
        rcases needsCoind_next needs with before | ⟨reads, alive⟩
        · exact invariant.needed position running id before
        · exact invariant.coindKept_of_alive
            ((invariant.valid locks).jobs position running id reads) alive
    have refers : Refers server.jobs (server.jobsAfter position) := by
      rw [Server.jobsAfter.eq_def]
      split
      · exact
          refers_modifyJob YaampObject.objectUnlock (fun _ => rfl)
            (fun _ alive => alive) _ _
      · exact Refers.refl _
    exact moved.refer refers

/-- Deleting the job of a coin reaches every job with that number. -/
theorem deleted_of_mem_deleteCoindJob
    {coind : YaampCoind} {jobs : List YaampJob} {job : YaampJob}
    (listed : job ∈ deleteCoindJob coind jobs)
    (points : coind.job = some job.id) : job.deleted = true := by
  rw [deleteCoindJob, points] at listed
  obtain ⟨old, -, ⟨-, rfl⟩ | ⟨other, rfl⟩⟩ := mem_modifyJob listed
  · rfl
  · exact absurd rfl other

theorem deleted_of_mem_foldr_deleteCoindJob
    {coinds : List YaampCoind} {coind : YaampCoind} {jobs : List YaampJob}
    {job : YaampJob} (freed : coind ∈ coinds)
    (listed : job ∈ coinds.foldr deleteCoindJob jobs)
    (points : coind.job = some job.id) : job.deleted = true := by
  induction coinds generalizing job with
  | nil =>
      exact absurd freed (by simp)
  | cons first coinds ih =>
      rcases List.mem_cons.mp freed with rfl | later
      · exact deleted_of_mem_deleteCoindJob listed points
      · by_contra alive
        have notDeleted : job.deleted = false := by
          simpa using alive
        obtain ⟨old, oldListed, sameId, -, kept⟩ :=
          (marked_deleteCoindJob first _).old job listed
        rw [sameId] at points
        have oldDeleted := ih later oldListed points
        rw [kept notDeleted] at oldDeleted
        exact absurd oldDeleted (by simp)

theorem coindListed_modifyCoind
    {change : YaampCoind → YaampCoind} {id other : Nat}
    {coinds : List YaampCoind}
    (sameId : ∀ coind, (change coind).id = coind.id)
    (listed : CoindListed coinds other) :
    CoindListed (modifyCoind change id coinds) other := by
  obtain ⟨coind, coindListed, rfl⟩ := listed
  refine ⟨_, List.mem_map_of_mem coindListed, ?_⟩
  split
  · exact sameId coind
  · rfl

theorem ids_modifyCoind
    (change : YaampCoind → YaampCoind)
    (sameId : ∀ coind, (change coind).id = coind.id)
    (id : Nat) (coinds : List YaampCoind) :
    (modifyCoind change id coinds).map (fun coind => coind.id) =
      coinds.map fun coind => coind.id := by
  rw [modifyCoind, List.map_map]
  apply List.map_congr_left
  intro coind _
  rw [Function.comp_apply]
  split
  · exact sameId coind
  · rfl

/-- A new job of any kind that is the current one of its coin. -/
theorem append
    (invariant : ReferenceInvariant server) (locks : LockInvariant server)
    (coind : Option Nat)
    (current :
      ∀ id, coind = some id →
        ∃ coin ∈ server.coinds, coin.id = id ∧
          coin.job = some (server.nextJobId + 1)) :
    ReferenceInvariant
      { server with
        jobs :=
          server.jobs ++ [YaampJob.create (server.nextJobId + 1) coind]
        nextJobId := server.nextJobId + 1 } where
  jobsDistinct := by
    rw [List.map_append, List.nodup_append]
    refine ⟨invariant.jobsDistinct, by simp, ?_⟩
    intro id old other new
    obtain ⟨job, listed, rfl⟩ := List.mem_map.mp old
    have given := locks.numbered job listed
    rw [List.map_singleton, List.mem_singleton] at new
    rw [new]
    exact Nat.ne_of_lt (Nat.lt_succ_of_le given)
  coindsDistinct := invariant.coindsDistinct
  coindsNumbered := invariant.coindsNumbered
  current := by
    intro job listed alive id points
    rcases List.mem_append.mp listed with old | new
    · exact invariant.current job old alive id points
    · rw [List.mem_singleton.mp new] at points ⊢
      exact current id points
  visited := by
    intro position running id visits
    obtain ⟨job, listed, same⟩ :=
      invariant.visited position running id visits
    exact ⟨job, List.mem_append_left _ listed, same⟩
  last := by
    intro id running
    obtain ⟨job, listed, same⟩ := invariant.last id running
    exact ⟨job, List.mem_append_left _ listed, same⟩
  needed := by
    intro position running id needs job listed same coin points
    rcases List.mem_append.mp listed with old | new
    · exact invariant.needed position running id needs job old same coin
        points
    · rw [List.mem_singleton.mp new] at points
      obtain ⟨found, foundListed, foundId, -⟩ := current coin points
      exact ⟨found, foundListed, foundId⟩

theorem coindCreateJob
    (invariant : ReferenceInvariant server) (locks : LockInvariant server)
    (coind : Nat) : ReferenceInvariant (server.coindCreateJob coind) := by
  rw [Server.coindCreateJob]
  split
  · exact invariant
  · rename_i found isFound
    split
    · exact invariant
    · obtain ⟨foundListed, foundId⟩ := objectFind_eq_some isFound
      have marks := marked_deleteCoindJob found server.jobs
      have deleted := invariant.refer marks.toRefers
      have sameIds :=
        ids_modifyCoind
          (fun coin => { coin with job := some (server.nextJobId + 1) })
          (fun _ => rfl) coind server.coinds
      let coinds :=
        modifyCoind
          (fun coin => { coin with job := some (server.nextJobId + 1) })
          coind server.coinds
      have replaced :
          ReferenceInvariant
            { server with
              jobs := deleteCoindJob found server.jobs
              coinds := coinds } :=
        { jobsDistinct := deleted.jobsDistinct
          coindsDistinct := by
            exact sameIds ▸ invariant.coindsDistinct
          coindsNumbered := by
            intro coin listed
            obtain ⟨old, oldListed, changed⟩ := List.mem_map.mp listed
            have numbered := invariant.coindsNumbered old oldListed
            rw [← changed]
            split <;> exact numbered
          current := by
            intro job listed alive id points
            obtain ⟨coin, coinListed, coinId, coinJob⟩ :=
              deleted.current job listed alive id points
            -- The job that the coin pointed to is deleted by now.
            have other : coin.id ≠ coind := by
              intro same
              have sameCoin : coin = found :=
                List.inj_on_of_nodup_map invariant.coindsDistinct
                  coinListed foundListed (same.trans foundId.symm)
              rw [sameCoin] at coinJob
              have gone := deleted_of_mem_deleteCoindJob listed coinJob
              rw [alive] at gone
              exact absurd gone (by simp)
            exact ⟨coin,
              List.mem_map.mpr ⟨coin, coinListed, by rw [if_neg other]⟩,
              coinId, coinJob⟩
          visited := deleted.visited
          last := deleted.last
          needed := by
            intro position running id needs job listed same coin points
            exact coindListed_modifyCoind (fun _ => rfl)
              (deleted.needed position running id needs job listed same
                coin points) }
      have marked := locks.mark marks
      have lockedCoinds :
          LockInvariant
            { server with
              jobs := deleteCoindJob found server.jobs
              coinds := coinds } :=
        ⟨marked.counted, marked.held, marked.numbered, marked.permanent⟩
      refine replaced.append lockedCoinds (some coind) ?_
      intro id same
      rw [← Option.some.inj same]
      exact ⟨_, List.mem_map_of_mem foundListed,
        by rw [if_pos foundId]; exact foundId, by rw [if_pos foundId]⟩

theorem remoteCreateJob
    (invariant : ReferenceInvariant server) (locks : LockInvariant server) :
    ReferenceInvariant server.remoteCreateJob := by
  rw [Server.remoteCreateJob]
  split
  · exact invariant
  · exact invariant.append locks none (by simp)

theorem loadCoind (invariant : ReferenceInvariant server) :
    ReferenceInvariant server.loadCoind where
  jobsDistinct := invariant.jobsDistinct
  coindsDistinct := by
    simp only [Server.loadCoind]
    rw [List.map_append, List.nodup_append]
    refine ⟨invariant.coindsDistinct, by simp, ?_⟩
    intro id old other new
    obtain ⟨coind, listed, rfl⟩ := List.mem_map.mp old
    have given := invariant.coindsNumbered coind listed
    rw [List.map_singleton, List.mem_singleton] at new
    rw [new]
    exact Nat.ne_of_lt given
  coindsNumbered := by
    intro coind listed
    rcases List.mem_append.mp listed with old | new
    · exact Nat.lt_succ_of_lt (invariant.coindsNumbered coind old)
    · rw [List.mem_singleton.mp new]
      exact Nat.lt_succ_self _
  current := by
    intro job listed alive id points
    obtain ⟨coind, coindListed, same⟩ :=
      invariant.current job listed alive id points
    exact ⟨coind, List.mem_append_left _ coindListed, same⟩
  visited := invariant.visited
  last := invariant.last
  needed := by
    intro position running id needs job listed same coind points
    obtain ⟨coin, coinListed, coinId⟩ :=
      invariant.needed position running id needs job listed same coind
        points
    exact ⟨coin, List.mem_append_left _ coinListed, coinId⟩

/-- Marking a coin changes neither its number nor its job. -/
theorem deleteCoind (invariant : ReferenceInvariant server) (id : Nat) :
    ReferenceInvariant (Job.step server (.deleteCoind id)) where
  jobsDistinct := invariant.jobsDistinct
  coindsDistinct := by
    have sameIds :=
      ids_modifyCoind
        (fun coind => coind.setHeader coind.toYaampObject.delete)
        (fun _ => rfl) id server.coinds
    exact sameIds ▸ invariant.coindsDistinct
  coindsNumbered := by
    intro coind listed
    obtain ⟨old, oldListed, changed⟩ := List.mem_map.mp listed
    have numbered := invariant.coindsNumbered old oldListed
    rw [← changed]
    split <;> exact numbered
  current := by
    intro job listed alive coind points
    obtain ⟨coin, coinListed, coinId, coinJob⟩ :=
      invariant.current job listed alive coind points
    refine ⟨_, List.mem_map_of_mem coinListed, ?_, ?_⟩
    · split <;> exact coinId
    · split <;> exact coinJob
  visited := invariant.visited
  last := invariant.last
  needed := by
    intro position running id needs job listed same coind points
    exact coindListed_modifyCoind (fun _ => rfl)
      (invariant.needed position running id needs job listed same coind
        points)

/-- A careful pass over the jobs. -/
theorem pruneJobs
    (invariant : ReferenceInvariant server) (locks : LockInvariant server)
    (careful : Careful server .pruneJobs) :
    ReferenceInvariant server.pruneJobs := by
  rw [Server.pruneJobs]
  split
  · exact invariant
  · rename_i free
    have notEntered : server.listEntered = false := by
      simpa using free
    have kept {job : YaampJob}
        (after :
          job ∈
            objectPrune YaampJob.toYaampObject YaampJob.setHeader
              server.jobs) :
        job ∈ server.jobs :=
      ((mem_objectPrune_jobs_iff locks.permanent).mp after).1
    exact
      { jobsDistinct := by
          exact invariant.jobsDistinct.sublist
            (ids_objectPrune_sublist (fun _ _ => rfl) server.jobs)
        coindsDistinct := invariant.coindsDistinct
        coindsNumbered := invariant.coindsNumbered
        current := fun job after =>
          invariant.current job (kept after)
        visited := by
          intro position running id visits
          have entered : position.inList = true := by
            cases position with
            | scanning | visiting => rfl
            | idle | found | decred | checking | error | accepted | auxs
            | submitting | confirming | recording | sending | unlocking
            | getLast | last =>
                exact absurd visits (by simp [Position.toVisit])
          have contradiction : server.listEntered = true := by
            rw [Server.listEntered, List.any_eq_true]
            exact ⟨position, running, entered⟩
          rw [notEntered] at contradiction
          exact absurd contradiction (by simp)
        last := by
          intro id running
          obtain ⟨job, listed, rfl⟩ := invariant.last id running
          have unpruned : job.prunable = false := by
            by_contra prunable
            exact careful notEntered job listed (by simpa using prunable)
              running
          exact ⟨job,
            (mem_objectPrune_jobs_iff locks.permanent).mpr
              ⟨listed, unpruned⟩, rfl⟩
        needed := fun position running id needs job after =>
          invariant.needed position running id needs job (kept after) }

/-- A careful pass over the coins. -/
theorem pruneCoinds
    (invariant : ReferenceInvariant server)
    (careful : Careful server .pruneCoinds) :
    ReferenceInvariant server.pruneCoinds := by
  have marks :=
    marked_foldr_deleteCoindJob
      (server.coinds.filter fun coind => coind.prunable) server.jobs
  have marked := invariant.refer marks.toRefers
  have keptCoind {coind : YaampCoind} (listed : coind ∈ server.coinds)
      (unpruned : coind.prunable = false) :
      coind.setHeader coind.toYaampObject.release ∈
        objectPrune YaampCoind.toYaampObject YaampCoind.setHeader
          server.coinds :=
    mem_objectPrune.mpr ⟨coind, listed, unpruned, rfl⟩
  exact
    { jobsDistinct := marked.jobsDistinct
      coindsDistinct := by
        exact invariant.coindsDistinct.sublist
          (ids_objectPrune_sublist (fun _ _ => rfl) server.coinds)
      coindsNumbered := by
        intro coind after
        obtain ⟨old, listed, -, rfl⟩ := mem_objectPrune.mp after
        have same :
            (old.setHeader old.toYaampObject.release).id = old.id :=
          YaampObject.release_id old.toYaampObject
        rw [same]
        exact invariant.coindsNumbered old listed
      current := by
        intro job listed alive id points
        obtain ⟨coind, coindListed, coindId, coindJob⟩ :=
          marked.current job listed alive id points
        -- A coin that is freed has marked its job.
        have unpruned : coind.prunable = false := by
          by_contra prunable
          have freed :
              coind ∈
                server.coinds.filter fun coind => coind.prunable :=
            List.mem_filter.mpr
              ⟨coindListed, by simpa using prunable⟩
          have gone :=
            deleted_of_mem_foldr_deleteCoindJob freed listed coindJob
          rw [alive] at gone
          exact absurd gone (by simp)
        exact ⟨_, keptCoind coindListed unpruned,
          (YaampObject.release_id coind.toYaampObject).trans coindId,
          coindJob⟩
      visited := marked.visited
      last := marked.last
      needed := by
        intro position running id needs job listed same coind points
        obtain ⟨old, oldListed, oldId, oldCoind, -⟩ :=
          marks.old job listed
        obtain ⟨coin, coinListed, coinId⟩ :=
          invariant.needed position running id needs old oldListed
            (oldId.symm.trans same) coind (oldCoind.symm.trans points)
        have unpruned : coin.prunable = false := by
          by_contra prunable
          have pointed : old.coind = some coin.id := by
            rw [← oldCoind, points, coinId]
          apply
            careful coin coinListed (by simpa using prunable) old oldListed
              pointed position running
          rw [needs, ← same, oldId]
        exact ⟨_, keptCoind coinListed unpruned,
          (YaampObject.release_id coin.toYaampObject).trans coinId⟩ }

theorem step
    (invariant : ReferenceInvariant server) (locks : LockInvariant server)
    {action : Action} (careful : Careful server action) :
    ReferenceInvariant (Job.step server action) := by
  cases action with
  | connect =>
      exact
        { jobsDistinct := invariant.jobsDistinct
          coindsDistinct := invariant.coindsDistinct
          coindsNumbered := invariant.coindsNumbered
          current := invariant.current
          visited := by
            intro position running id visits
            rcases List.mem_append.mp running with before | new
            · exact invariant.visited position before id visits
            · rw [List.mem_singleton.mp new] at visits
              exact absurd visits (by simp [Position.toVisit])
          last := by
            intro id running
            rcases List.mem_append.mp running with before | new
            · exact invariant.last id before
            · exact absurd (List.mem_singleton.mp new) (by simp)
          needed := by
            intro position running id needs
            rcases List.mem_append.mp running with before | new
            · exact invariant.needed position before id needs
            · rw [List.mem_singleton.mp new] at needs
              exact absurd needs (by simp [Position.needsCoind]) }
  | submit i function jobid =>
      exact
        invariant.findLocked ⟨rfl, rfl, by simp⟩ ⟨rfl, rfl, by simp⟩
  | jobSendJobid i jobid again =>
      exact
        invariant.findLocked ⟨rfl, rfl, by simp⟩ ⟨rfl, rfl, by simp⟩
  | jobSendLast i again =>
      rw [Job.step]
      split
      · apply invariant.setThread
        · simp [Position.toVisit]
        · simp
        · simp [Position.needsCoind]
      · exact invariant
  | proceed i passed => exact invariant.proceed locks i passed
  | coindCreateJob coind => exact invariant.coindCreateJob locks coind
  | remoteCreateJob => exact invariant.remoteCreateJob locks
  | deleteJob jobid =>
      exact invariant.refer (marked_delete jobid server.jobs).toRefers
  | loadCoind => exact invariant.loadCoind
  | deleteCoind coind => exact invariant.deleteCoind coind
  | pruneJobs => exact invariant.pruneJobs locks careful
  | pruneCoinds => exact invariant.pruneCoinds careful

end ReferenceInvariant

/-! ## Runs -/

theorem proceed_of_locked
    {server : Server} {i : Nat} {position : Position}
    (running : server.threads[i]? = some position)
    (locked : ∀ job, position ≠ .unlocking job) (passed : Bool) :
    step server (.proceed i passed) =
      server.setThread i (server.next passed position) := by
  have sameJobs : server.jobsAfter position = server.jobs := by
    rw [Server.jobsAfter]
    exact locked
  rw [step, Server.proceed, running]
  simp only [sameJobs]
  rfl

/-- A handler that passes its checks comes to a step that reads the coin. -/
theorem reads_after_proceeding
    {server : Server} {i id : Nat} {position : Position}
    (running : server.threads[i]? = some position)
    (needs : position.needsCoind = some id) :
    ∃ count reading,
      reading.readsCoind = some id ∧
        (Run.after step server
            (List.replicate count (.proceed i true))).threads[i]? =
          some reading ∧
          (Run.after step server
              (List.replicate count (.proceed i true))).jobs =
            server.jobs ∧
            (Run.after step server
                (List.replicate count (.proceed i true))).coinds =
              server.coinds := by
  have accepted {server : Server} {job : Nat}
      (running : server.threads[i]? = some (.accepted job)) :
      ∃ reading,
        reading.readsCoind = some job ∧
          (step server (.proceed i true)).threads[i]? = some reading ∧
            (step server (.proceed i true)).jobs = server.jobs ∧
              (step server (.proceed i true)).coinds = server.coinds := by
    have moved := proceed_threads running true
    rw [proceed_of_locked running (by simp)] at moved ⊢
    refine ⟨_, ?_, moved, rfl, rfl⟩
    rw [Server.next]
    split <;> rfl
  cases position with
  | decred | auxs | submitting | confirming | recording | visiting =>
      refine ⟨0, _, ?_, running, rfl, rfl⟩
      exact needs
  | accepted job =>
      obtain ⟨reading, reads, moved⟩ := accepted running
      refine ⟨1, reading, ?_, moved⟩
      rw [reads]
      exact needs
  | checking job checks =>
      rw [Position.needsCoind, Option.some.injEq] at needs
      rw [← needs]
      induction checks generalizing server with
      | nil =>
          have moved := proceed_threads running true
          have next : server.next true (.checking job []) = .accepted job :=
            rfl
          rw [next] at moved
          obtain ⟨reading, reads, later, jobs, coinds⟩ := accepted moved
          have sameStep := proceed_of_locked running (by simp) true
          exact ⟨2, reading, reads, later, jobs.trans (by rw [sameStep]; rfl),
            coinds.trans (by rw [sameStep]; rfl)⟩
      | cons check checks ih =>
          have moved := proceed_threads running true
          have next :
              server.next true (.checking job (check :: checks)) =
                .checking job checks :=
            rfl
          rw [next] at moved
          obtain ⟨count, reading, reads, later, jobs, coinds⟩ := ih moved
          have sameStep := proceed_of_locked running (by simp) true
          exact ⟨count + 1, reading, reads, later,
            jobs.trans (by rw [sameStep]; rfl),
            coinds.trans (by rw [sameStep]; rfl)⟩
  | idle | found | error | sending | unlocking | getLast | scanning
  | last => exact absurd needs (by simp [Position.needsCoind])

/-- After a pass that is not careful, some run reads a freed object. -/
theorem not_valid_of_careless
    {server : Server} (locks : LockInvariant server)
    (invariant : ReferenceInvariant server) {action : Action}
    (careless : ¬ Careful server action) :
    ∃ actions,
      ¬ ReferencesValid (Run.after step (step server action) actions) := by
  cases action with
  | pruneJobs =>
      simp only [Careful] at careless
      push Not at careless
      obtain ⟨free, job, listed, prunable, running⟩ := careless
      refine ⟨[], fun valid => ?_⟩
      rw [Run.after_nil, step, Server.pruneJobs,
        if_neg (by simp [free])] at valid
      obtain ⟨kept, after, same⟩ :=
        valid.jobs (.last job.id) running job.id rfl
      obtain ⟨keptListed, unpruned⟩ :=
        (mem_objectPrune_jobs_iff locks.permanent).mp after
      rw [List.inj_on_of_nodup_map invariant.jobsDistinct keptListed listed
        same, prunable] at unpruned
      exact absurd unpruned (by simp)
  | pruneCoinds =>
      simp only [Careful] at careless
      push Not at careless
      obtain ⟨coind, coindListed, prunable, job, listed, points, position,
        running, needs⟩ := careless
      obtain ⟨i, at_i⟩ := List.mem_iff_getElem?.mp running
      have stillRunning :
          (step server .pruneCoinds).threads[i]? = some position :=
        at_i
      obtain ⟨count, reading, reads, later, jobs, coinds⟩ :=
        reads_after_proceeding stillRunning needs
      refine ⟨List.replicate count (.proceed i true), fun valid => ?_⟩
      have marks :=
        marked_foldr_deleteCoindJob
          (server.coinds.filter fun coind => coind.prunable) server.jobs
      obtain ⟨marked, markedListed, markedId⟩ :
          Listed (step server .pruneCoinds).jobs job.id := by
        have before : Listed server.jobs job.id := ⟨job, listed, rfl⟩
        rw [listed_iff_mem_ids, ← marks.ids] at before
        exact listed_iff_mem_ids.mpr before
      obtain ⟨old, oldListed, oldId, sameCoind, -⟩ :=
        marks.old marked markedListed
      have sameJob : old = job :=
        List.inj_on_of_nodup_map invariant.jobsDistinct oldListed listed
          (oldId.symm.trans markedId)
      obtain ⟨kept, keptListed, keptId⟩ :=
        valid.coinds reading (List.mem_of_getElem? later) job.id reads marked
          (by rw [jobs]; exact markedListed) markedId coind.id
          (by rw [sameCoind, sameJob, points])
      rw [coinds] at keptListed
      obtain ⟨coin, coinListed, unpruned, rfl⟩ :=
        mem_objectPrune.mp keptListed
      have sameCoin : coin = coind :=
        List.inj_on_of_nodup_map invariant.coindsDistinct coinListed
          coindListed
          ((YaampObject.release_id coin.toYaampObject).symm.trans keptId)
      rw [sameCoin, prunable] at unpruned
      exact absurd unpruned (by simp)
  | connect | submit | jobSendJobid | jobSendLast | proceed
  | coindCreateJob | remoteCreateJob | deleteJob | loadCoind
  | deleteCoind => exact absurd trivial careless

end YiimpStratum.Job
