import YiimpStratum.Remote.Reference

/-!
# When the reference to the job stays valid

The reference is valid in all states of a run exactly when no notification that
is too short finds the remote with a job.
-/

namespace YiimpStratum.Reference

open YiimpStratum
open YiimpStratum.Util

/-! ## Lists of jobs -/

theorem mem_changeJobs {chosen : YaampJob → Bool}
    {change : YaampObject → YaampObject} {jobs : List YaampJob}
    {job : YaampJob} :
    job ∈ changeJobs chosen change jobs ↔
      ∃ old ∈ jobs, (if chosen old then
        old.setHeader (change old.toYaampObject) else old) = job :=
  List.mem_map

/-- A change that keeps the number keeps what a job is found by. -/
theorem old_of_mem_changeJobs {chosen : YaampJob → Bool}
    {change : YaampObject → YaampObject}
    (sameId : ∀ object, (change object).id = object.id)
    {jobs : List YaampJob} {job : YaampJob}
    (member : job ∈ changeJobs chosen change jobs) :
    ∃ old ∈ jobs, old.id = job.id ∧ old.ofCoin = job.ofCoin := by
  obtain ⟨old, listed, changed⟩ := mem_changeJobs.mp member
  refine ⟨old, listed, ?_⟩
  split at changed
  · rw [← changed]
    exact ⟨(sameId old.toYaampObject).symm, rfl⟩
  · rw [changed]
    exact ⟨rfl, rfl⟩

/-- Only marking a job takes its life. -/
theorem liveJob_changeJobs {chosen : YaampJob → Bool}
    {change : YaampObject → YaampObject}
    (sameId : ∀ object, (change object).id = object.id)
    {jobs : List YaampJob} {jobid : Nat}
    (keeps : ∀ job ∈ jobs, job.id = jobid → chosen job = true →
      (change job.toYaampObject).deleted = job.deleted) :
    LiveJob (changeJobs chosen change jobs) jobid ↔ LiveJob jobs jobid := by
  constructor
  · rintro ⟨job, member, numbered, alive⟩
    obtain ⟨old, listed, changed⟩ := mem_changeJobs.mp member
    split at changed
    · rename_i selected
      rw [← changed] at numbered alive
      have number : old.id = jobid := (sameId _).symm.trans numbered
      exact ⟨old, listed, number,
        (keeps old listed number selected).symm.trans alive⟩
    · rw [← changed] at numbered alive
      exact ⟨old, listed, numbered, alive⟩
  · rintro ⟨old, listed, number, alive⟩
    refine ⟨_, mem_changeJobs.mpr ⟨old, listed, rfl⟩, ?_, ?_⟩
    · split
      · exact (sameId _).trans number
      · exact number
    · split
      · rename_i selected
        exact (keeps old listed number selected).trans alive
      · exact alive

theorem not_liveJob_deleteJob (jobid : Nat) (jobs : List YaampJob) :
    ¬ LiveJob (deleteJob (some jobid) jobs) jobid := by
  rintro ⟨job, member, numbered, alive⟩
  obtain ⟨old, listed, changed⟩ := mem_changeJobs.mp member
  split at changed
  · rw [← changed] at alive
    exact Bool.noConfusion alive
  · rename_i spared
    rw [changed, numbered] at spared
    exact absurd (beq_self_eq_true (some jobid)) spared

theorem liveJob_pruneJobs (jobs : List YaampJob) (jobid : Nat) :
    LiveJob (pruneJobs jobs) jobid ↔ LiveJob jobs jobid := by
  constructor
  · rintro ⟨job, member, numbered, alive⟩
    obtain ⟨old, listed, -, rfl⟩ := mem_objectPrune.mp member
    exact ⟨old, listed, (YaampObject.release_id _).symm.trans numbered,
      (YaampObject.release_deleted _).symm.trans alive⟩
  · rintro ⟨old, listed, number, alive⟩
    refine ⟨old.setHeader old.toYaampObject.release,
      mem_objectPrune.mpr ⟨old, listed, ?_, rfl⟩, ?_, ?_⟩
    · rw [YaampObject.prunable, alive, Bool.false_and]
    · exact (YaampObject.release_id _).trans number
    · exact (YaampObject.release_deleted _).trans alive

theorem old_of_mem_pruneJobs {jobs : List YaampJob} {job : YaampJob}
    (member : job ∈ pruneJobs jobs) :
    ∃ old ∈ jobs, old.id = job.id ∧ old.ofCoin = job.ofCoin := by
  obtain ⟨old, listed, -, rfl⟩ := mem_objectPrune.mp member
  exact ⟨old, listed, (YaampObject.release_id _).symm, rfl⟩

theorem LiveJob.append {jobs : List YaampJob} {jobid : Nat}
    (alive : LiveJob jobs jobid) (added : List YaampJob) :
    LiveJob (jobs ++ added) jobid := by
  obtain ⟨job, member, facts⟩ := alive
  exact ⟨job, List.mem_append_left added member, facts⟩

/-! ## The invariant -/

/-- Numbers of jobs are given out, and the job of the remote is no coin's. -/
structure Sound (server : Server) : Prop where
  ids : ∀ job ∈ server.jobs, job.id ≤ server.nextJobId
  pointer : ∀ jobid, server.remote.job = some jobid →
    jobid ≤ server.nextJobId
  own : ∀ job ∈ server.jobs, server.remote.job = some job.id →
    job.ofCoin = false
  alive : server.remote.running = true →
    server.remote.freed = false ∧ server.remote.deleted = false

theorem sound_initial (clients : List YaampClient) :
    Sound (Server.initial clients) where
  ids := by
    intro job member
    exact absurd member List.not_mem_nil
  pointer := by
    intro jobid points
    exact absurd points.symm (Option.some_ne_none jobid)
  own := by
    intro job member
    exact absurd member List.not_mem_nil
  alive := fun _ => ⟨rfl, rfl⟩

/-- Jobs that come from old ones with their numbers and owners stay sound. -/
theorem Sound.of_jobs {server : Server} (sound : Sound server)
    {jobs : List YaampJob}
    (old : ∀ job ∈ jobs, ∃ before ∈ server.jobs,
      before.id = job.id ∧ before.ofCoin = job.ofCoin) :
    Sound { server with jobs := jobs } where
  ids := by
    intro job member
    obtain ⟨before, listed, number, -⟩ := old job member
    exact number ▸ sound.ids before listed
  pointer := sound.pointer
  own := by
    intro job member pointed
    obtain ⟨before, listed, number, owner⟩ := old job member
    rw [← owner]
    exact sound.own before listed (number ▸ pointed)
  alive := sound.alive

theorem Sound.changeJobs {server : Server} (sound : Sound server)
    (chosen : YaampJob → Bool) {change : YaampObject → YaampObject}
    (sameId : ∀ object, (change object).id = object.id) :
    Sound { server with jobs := changeJobs chosen change server.jobs } :=
  sound.of_jobs fun _ member => old_of_mem_changeJobs sameId member

theorem Sound.deleteJob {server : Server} (sound : Sound server)
    (pointer : Option Nat) :
    Sound { server with jobs := deleteJob pointer server.jobs } :=
  sound.changeJobs _ fun _ => rfl

/-- A change of the remote that keeps its job, or drops it. -/
theorem Sound.of_remote {server : Server} (sound : Sound server)
    {remote : YaampRemote}
    (job : remote.job = server.remote.job ∨ remote.job = none)
    (alive : remote.running = true →
      remote.freed = false ∧ remote.deleted = false) :
    Sound { server with remote := remote } where
  ids := sound.ids
  pointer := by
    intro jobid pointed
    rcases job with same | dropped
    · exact sound.pointer jobid (same ▸ pointed)
    · exact absurd (pointed.symm.trans dropped) (Option.some_ne_none jobid)
  own := by
    intro listed member pointed
    rcases job with same | dropped
    · exact sound.own listed member (same ▸ pointed)
    · exact absurd (pointed.symm.trans dropped) (Option.some_ne_none _)
  alive := alive

theorem Sound.remoteClose {server : Server} (sound : Sound server) :
    Sound (remoteClose server) :=
  (sound.deleteJob server.remote.job).of_remote (Or.inr rfl) sound.alive

theorem Sound.leaveLoop {server : Server} (sound : Sound server) :
    Sound (leaveLoop server) :=
  sound.of_remote (Or.inl rfl) fun running => Bool.noConfusion running

theorem Sound.remoteCreateJob {server : Server} (sound : Sound server)
    (params : List Json) : Sound (remoteCreateJob params server) := by
  have marked := sound.deleteJob server.remote.job
  rw [Reference.remoteCreateJob]
  split
  · exact marked
  · exact
      { ids := by
          intro job member
          rcases List.mem_append.mp member with old | new
          · exact Nat.le_succ_of_le (marked.ids job old)
          · rw [List.mem_singleton.mp new]
            exact Nat.le_refl _
        pointer := by
          intro jobid pointed
          rw [← Option.some.inj pointed]
        own := by
          intro job member pointed
          rcases List.mem_append.mp member with old | new
          · have below := marked.ids job old
            have number : server.nextJobId + 1 = job.id :=
              Option.some.inj pointed
            have bound : job.id ≤ server.nextJobId := below
            omega
          · rw [List.mem_singleton.mp new]
            rfl
        alive := sound.alive }

theorem Sound.notify {server : Server} (sound : Sound server)
    (params : List Json) : Sound (notify params server) := by
  rw [Reference.notify]
  dsimp only
  split
  · have taken : Sound { server with remote := takeNext server.remote } :=
      sound.of_remote (Or.inl rfl) sound.alive
    have created := taken.remoteCreateJob params
    split
    · exact created.leaveLoop
    · exact created
  · have created := sound.remoteCreateJob params
    split
    · exact created.leaveLoop
    · exact ⟨created.ids, created.pointer, created.own, created.alive⟩

theorem Sound.step {server : Server} (sound : Sound server) (event : Event) :
    Sound (step server event) := by
  cases event with
  | connect succeeds =>
      rw [Reference.step]
      split
      · rw [remoteConnect]
        dsimp only
        split
        · exact sound.remoteClose.of_remote (Or.inl rfl) sound.alive
        · exact sound.of_remote (Or.inl rfl) sound.alive
      · exact sound
  | close =>
      rw [Reference.step]
      split
      · exact sound.remoteClose
      · exact sound
  | notify params =>
      rw [Reference.step]
      split
      · exact sound.notify params
      · exact sound
  | setNext nonce1 nonce2size difficulty =>
      rw [Reference.step]
      split
      · exact sound.of_remote (Or.inl rfl) sound.alive
      · exact sound
  | terminate =>
      rw [Reference.step]
      split
      · exact sound.leaveLoop
      · exact sound
  | pruneRemotes =>
      rw [Reference.step, Reference.pruneRemotes]
      split
      · rename_i marked
        refine (sound.deleteJob server.remote.job).of_remote (Or.inl rfl) ?_
        intro running
        rw [(sound.alive running).2] at marked
        exact absurd marked.1 Bool.false_ne_true
      · exact sound
  | pruneJobs =>
      exact sound.of_jobs fun _ member => old_of_mem_pruneJobs member
  | addCoinJob =>
      exact
        { ids := by
            intro job member
            rcases List.mem_append.mp member with old | new
            · exact Nat.le_succ_of_le (sound.ids job old)
            · rw [List.mem_singleton.mp new]
              exact Nat.le_refl _
          pointer := fun jobid pointed =>
            Nat.le_succ_of_le (sound.pointer jobid pointed)
          own := by
            intro job member pointed
            rcases List.mem_append.mp member with old | new
            · exact sound.own job old pointed
            · have bound := sound.pointer job.id pointed
              rw [List.mem_singleton.mp new] at bound
              exact absurd bound (Nat.not_succ_le_self _)
          alive := sound.alive }
  | deleteCoinJob jobid => exact sound.changeJobs _ fun _ => rfl
  | lockJob jobid => exact sound.changeJobs _ fun _ => rfl
  | unlockJob jobid => exact sound.changeJobs _ fun _ => rfl

/-! ## One step -/

theorem ReferenceValid.of_job_none {server : Server}
    (missing : server.remote.job = none) : ReferenceValid server := by
  intro _ jobid pointed
  rw [missing] at pointed
  exact absurd pointed.symm (Option.some_ne_none jobid)

/-- A change of the remote that leaves its job. -/
theorem ReferenceValid.of_remote {server : Server}
    (valid : ReferenceValid server) {remote : YaampRemote}
    (job : remote.job = server.remote.job)
    (freed : remote.freed = server.remote.freed) :
    ReferenceValid { server with remote := remote } := by
  intro present jobid pointed
  exact valid (freed.symm.trans present) jobid (job.symm.trans pointed)

theorem ReferenceValid.of_jobs {server : Server} (valid : ReferenceValid server)
    {jobs : List YaampJob}
    (lives : ∀ jobid, server.remote.job = some jobid →
      (LiveJob jobs jobid ↔ LiveJob server.jobs jobid)) :
    ReferenceValid { server with jobs := jobs } := by
  intro present jobid pointed
  exact (lives jobid pointed).mpr (valid present jobid pointed)

/-- A full notification gives the remote a live job. -/
theorem referenceValid_remoteCreateJob {params : List Json}
    (full : ¬ params.length < 8) (server : Server) :
    ReferenceValid (remoteCreateJob params server) := by
  intro _ jobid pointed
  rw [remoteCreateJob, if_neg full] at pointed ⊢
  refine ⟨YaampJob.allocated (server.nextJobId + 1) false,
    List.mem_append_right _ (List.mem_singleton.mpr rfl), ?_, rfl⟩
  exact Option.some.inj pointed

theorem remoteCreateJob_short {params : List Json}
    (short : params.length < 8) (server : Server) :
    remoteCreateJob params server =
      { server with jobs := deleteJob server.remote.job server.jobs } := by
  rw [remoteCreateJob, if_pos short]

/-- After a full notification the remote has a live job. -/
theorem referenceValid_notify {params : List Json}
    (full : ¬ params.length < 8) (server : Server) :
    ReferenceValid (notify params server) := by
  rw [notify]
  dsimp only
  split
  · have created := referenceValid_remoteCreateJob full
      { server with remote := takeNext server.remote }
    split
    · rename_i missing
      exact ReferenceValid.of_job_none missing
    · exact created
  · have created := referenceValid_remoteCreateJob full server
    split
    · rename_i missing
      exact ReferenceValid.of_job_none missing
    · exact created

/-- What a notification that is too short does to jobs and clients. -/
theorem notify_short {params : List Json} (short : params.length < 8)
    (server : Server) :
    (notify params server).jobs =
        deleteJob server.remote.job server.jobs ∧
      (notify params server).remote.job = server.remote.job ∧
      (notify params server).remote.freed = server.remote.freed ∧
      (notify params server).clients.map YaampClient.jobidLocked =
        server.clients.map YaampClient.jobidLocked := by
  have assigned : ∀ jobid,
      (jobAssignLockedClients jobid server.clients).map
          YaampClient.jobidLocked =
        server.clients.map YaampClient.jobidLocked := by
    intro jobid
    rw [jobAssignLockedClients, List.map_map]
    refine List.map_congr_left fun client _ => ?_
    rw [Function.comp_apply]
    split
    · rfl
    · rfl
  rw [notify, remoteCreateJob_short short, remoteCreateJob_short short]
  dsimp only
  split
  · split
    · exact ⟨rfl, rfl, rfl, rfl⟩
    · exact ⟨rfl, rfl, rfl, rfl⟩
  · split
    · exact ⟨rfl, rfl, rfl, rfl⟩
    · exact ⟨rfl, rfl, rfl, assigned _⟩

/-- A short notification makes the reference of a remote with a job invalid. -/
theorem referenceValid_notify_short_iff {server : Server}
    (alive : server.remote.freed = false) {params : List Json}
    (short : params.length < 8) :
    ReferenceValid (notify params server) ↔ server.remote.job = none := by
  obtain ⟨jobs, job, freed, -⟩ := notify_short short server
  constructor
  · intro after
    by_contra pointed
    obtain ⟨jobid, pointed⟩ := Option.ne_none_iff_exists'.mp pointed
    have live := after (freed.trans alive) jobid (job.trans pointed)
    rw [jobs, pointed] at live
    exact not_liveJob_deleteJob jobid server.jobs live
  · intro unset
    exact ReferenceValid.of_job_none (job.trans unset)

/-- Locks and unlocks of jobs delete none. -/
theorem ReferenceValid.of_changeJobs {server : Server}
    (valid : ReferenceValid server) (chosen : YaampJob → Bool)
    {change : YaampObject → YaampObject}
    (sameId : ∀ object, (change object).id = object.id)
    (sameFlag : ∀ object, (change object).deleted = object.deleted) :
    ReferenceValid
      { server with jobs := changeJobs chosen change server.jobs } := by
  refine valid.of_jobs fun jobid _ => ?_
  exact liveJob_changeJobs sameId fun job _ _ _ => sameFlag job.toYaampObject

/--
From a valid reference a step keeps it valid exactly when it is no short
notification to a remote with a job.
-/
theorem referenceValid_step_iff {server : Server} (sound : Sound server)
    (valid : ReferenceValid server) (event : Event) :
    ReferenceValid (step server event) ↔ Careful server event := by
  cases event with
  | notify params =>
      rw [step]
      split
      · rename_i reads
        have running := (Bool.and_eq_true_iff.mp reads).1
        by_cases short : params.length < 8
        · rw [referenceValid_notify_short_iff (sound.alive running).1 short]
          exact ⟨fun valid _ _ => valid, fun careful => careful short reads⟩
        · exact iff_of_true (referenceValid_notify short server)
            fun few _ => absurd few short
      · rename_i silent
        exact iff_of_true valid fun _ reads => absurd reads silent
  | connect succeeds =>
      refine iff_of_true ?_ trivial
      rw [step]
      split
      · rw [remoteConnect]
        dsimp only
        split
        · exact ReferenceValid.of_job_none rfl
        · exact valid.of_remote rfl rfl
      · exact valid
  | close =>
      refine iff_of_true ?_ trivial
      rw [step]
      split
      · exact ReferenceValid.of_job_none rfl
      · exact valid
  | setNext nonce1 nonce2size difficulty =>
      refine iff_of_true ?_ trivial
      rw [step]
      split
      · exact valid.of_remote rfl rfl
      · exact valid
  | terminate =>
      refine iff_of_true ?_ trivial
      rw [step]
      split
      · exact valid.of_remote rfl rfl
      · exact valid
  | pruneRemotes =>
      refine iff_of_true ?_ trivial
      rw [step, pruneRemotes]
      split
      · intro present
        exact Bool.noConfusion present
      · exact valid
  | pruneJobs =>
      refine iff_of_true ?_ trivial
      rw [step]
      exact valid.of_jobs fun jobid _ => liveJob_pruneJobs _ jobid
  | addCoinJob =>
      refine iff_of_true ?_ trivial
      intro present jobid pointed
      exact (valid present jobid pointed).append _
  | deleteCoinJob number =>
      refine iff_of_true ?_ trivial
      rw [step]
      refine valid.of_jobs fun jobid pointed => ?_
      have sameId : ∀ object, (YaampObject.delete object).id = object.id :=
        fun _ => rfl
      refine liveJob_changeJobs sameId fun job listed same selected => ?_
      have own := sound.own job listed (same ▸ pointed)
      rw [own, Bool.false_and] at selected
      exact Bool.noConfusion selected
  | lockJob number =>
      refine iff_of_true ?_ trivial
      rw [step]
      exact valid.of_changeJobs _ (fun _ => rfl) fun _ => rfl
  | unlockJob number =>
      refine iff_of_true ?_ trivial
      rw [step]
      exact valid.of_changeJobs _ (fun _ => rfl) fun _ => rfl

/-- A careful notification that is too short changes nothing about jobs. -/
theorem leavesJob_of_careful {server : Server} {params : List Json}
    (short : params.length < 8) (careful : Careful server (.notify params)) :
    LeavesJob server (.notify params) := by
  rw [LeavesJob, step]
  split
  · rename_i reads
    have missing := careful short reads
    obtain ⟨jobs, job, -, clients⟩ := notify_short short server
    refine ⟨job, fun jobid pointed => ?_, clients⟩
    rw [missing] at pointed
    exact absurd pointed.symm (Option.some_ne_none jobid)
  · exact ⟨rfl, fun _ _ => Iff.rfl, rfl⟩

/-! ## Runs -/

/--
Along a run the reference stays valid, and short notifications leave the job
alone, exactly when each short notification finds the remote without a job.
-/
theorem referenceKept_iff (clients : List YaampClient) (events : List Event) :
    ReferenceKept (Server.initial clients) events ↔
      Run.EveryStep step Careful (Server.initial clients) events := by
  have valid : (∀ reached, reached <+: events → ReferenceValid
      (Run.after step (Server.initial clients) reached)) ↔
      Run.EveryStep step Careful (Server.initial clients) events :=
    Run.forall_prefix_iff_everyStep ReferenceValid
      (fun _ event sound => Sound.step sound event)
      (fun _ event sound valid => referenceValid_step_iff sound valid event)
      (sound_initial clients) (ReferenceValid.of_job_none rfl) events
  rw [ReferenceKept, valid]
  refine and_iff_left_of_imp fun careful reached params within short => ?_
  exact leavesJob_of_careful short (careful.at_prefix within)

/-! ## A failing run -/

/-- A notification with this many parameters. -/
def notification (count : Nat) : Event :=
  .notify (List.replicate count .null)

/-- A job, and then a notification without its last parameter. -/
def shortRun : List Event :=
  [.connect true, notification 8, notification 7]

theorem not_referenceKept_shortRun :
    ¬ ReferenceKept (Server.initial []) shortRun := by
  intro kept
  obtain ⟨job, member, -, alive⟩ :=
    kept.1 shortRun (List.prefix_refl shortRun) rfl 1 rfl
  have jobs : (Run.after step (Server.initial []) shortRun).jobs =
      [(YaampJob.allocated 1 false).setHeader
        (YaampJob.allocated 1 false).toYaampObject.delete] := by
    rfl
  rw [jobs, List.mem_singleton] at member
  rw [member] at alive
  exact Bool.noConfusion alive

end YiimpStratum.Reference
