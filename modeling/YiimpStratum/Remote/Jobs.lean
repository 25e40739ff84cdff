import YiimpStratum.Assign.Quiet
import YiimpStratum.Remote.Proxy

/-!
# Deleted jobs stay deleted

No step of the assignment takes a job out of the list or brings a deleted one
back.  A job that is created has a number that no job had.
-/

namespace YiimpStratum.Remote

open YiimpStratum.Assign (Action Config Server Source YaampClient YaampJob)

/-- The jobs of a server outlive a step, and the deleted ones stay deleted. -/
structure Settled (before after : Server) : Prop where
  length : before.jobs.length ≤ after.jobs.length
  deleted :
    ∀ jobid new, jobid ≤ before.jobs.length → after.job jobid = some new →
      new.deleted = false →
        ∃ old, before.job jobid = some old ∧ old.deleted = false

namespace Settled

theorem of_jobs {before after : Server} (same : after.jobs = before.jobs) :
    Settled before after where
  length := by rw [same]
  deleted := by
    intro jobid new _ found alive
    rw [Server.job, same] at found
    exact ⟨new, found, alive⟩

theorem refl (server : Server) : Settled server server :=
  of_jobs rfl

theorem trans {first second third : Server} (left : Settled first second)
    (right : Settled second third) : Settled first third where
  length := le_trans left.length right.length
  deleted := by
    intro jobid new bound found alive
    obtain ⟨middle, foundMiddle, aliveMiddle⟩ :=
      right.deleted jobid new (le_trans bound left.length) found alive
    exact left.deleted jobid middle bound foundMiddle aliveMiddle

end Settled

section Server

variable (server : Server)

theorem jobs_length_modifyJob (jobid : Nat) (change : YaampJob → YaampJob) :
    (server.modifyJob jobid change).jobs.length = server.jobs.length := by
  rw [Server.modifyJob]
  split
  · rfl
  · exact List.length_modify ..

theorem settled_modifyJob (jobid : Nat) {change : YaampJob → YaampJob}
    (kept : ∀ job, (change job).deleted = false → job.deleted = false) :
    Settled server (server.modifyJob jobid change) where
  length := (jobs_length_modifyJob server jobid change).ge
  deleted := by
    intro other new _ found alive
    obtain ⟨old, was, rfl⟩ := Assign.job_modifyJob found
    refine ⟨old, was, ?_⟩
    split at alive
    · exact kept old alive
    · exact alive

theorem Settled.modifyJob {before after : Server}
    (settled : Settled before after) (jobid : Nat)
    {change : YaampJob → YaampJob}
    (kept : ∀ job, (change job).deleted = false → job.deleted = false) :
    Settled before (after.modifyJob jobid change) :=
  settled.trans (settled_modifyJob after jobid kept)

theorem settled_deleteJob (jobid : Nat) :
    Settled server
      (server.modifyJob jobid fun job => { job with deleted := true }) :=
  settled_modifyJob server jobid fun _ alive => absurd alive (by simp)

theorem settled_jobAssignClients (jobid : Nat) :
    Settled server (server.jobAssignClients jobid) :=
  settled_modifyJob server jobid fun _ alive => alive

/-- A new job at the end of the list has a number above all others. -/
theorem settled_append (job : YaampJob) :
    Settled server { server with jobs := server.jobs ++ [job] } where
  length := by
    rw [List.length_append]
    omega
  deleted := by
    intro jobid new bound found alive
    refine ⟨new, ?_, alive⟩
    rw [Server.job] at found ⊢
    split at found
    · exact absurd found (by simp)
    · rename_i positive
      rw [if_neg positive, ← found]
      exact (List.getElem?_append_left (by omega)).symm

theorem jobs_jobRelockClients (old new : Nat) :
    (server.jobRelockClients old new).jobs = server.jobs := by
  rw [Server.jobRelockClients]
  split <;> rfl

theorem jobs_createJob (old : Nat) (source : Source) :
    (server.createJob old source).jobs =
      (server.modifyJob old fun job => { job with deleted := true }).jobs ++
        [YaampJob.create source] := by
  cases source with
  | coind id => rfl
  | remote remote => exact jobs_jobRelockClients _ _ _

theorem settled_createJob (old : Nat) (source : Source) :
    Settled server (server.createJob old source) := by
  have appended :=
    (settled_deleteJob server old).trans
      (settled_append _ (YaampJob.create source))
  exact appended.trans (Settled.of_jobs (jobs_createJob server old source))

/-- `job_assign_client` neither deletes a job nor brings one back. -/
theorem deleted_jobAssignClient (config : Config) (jobid : Nat)
    (job : YaampJob) (client : YaampClient) (maxhash : Rat) :
    (Assign.jobAssignClient config jobid job client maxhash).2.1.deleted =
      job.deleted := by
  rw [Assign.jobAssignClient]
  split
  · rfl
  · cases job.source with
    | coind id => rfl
    | remote remote =>
        dsimp only
        split
        · rfl
        · split
          · rfl
          · rename_i given taken gives
            have same : given.deleted = job.deleted := by
              rw [Assign.giveRemoteNonce] at gives
              split at gives
              · split at gives
                · exact absurd gives (by simp)
                · cases gives
                  rfl
              · split at gives
                · cases gives
                  rfl
                · obtain ⟨subid, -, rfl, -⟩ := by
                    simpa [Option.map_eq_some_iff] using gives
                  rfl
            exact same

theorem settled_assignClient (config : Config) (jobid i : Nat)
    (maxhash : Rat) :
    Settled server (server.assignClient config jobid i maxhash) := by
  rw [Server.assignClient]
  split
  · rename_i job client found at_i
    split
    · have modified :
          Settled server
            (server.modifyJob jobid fun _ =>
              (Assign.jobAssignClient config jobid job client
                maxhash).2.1) := by
        refine ⟨(jobs_length_modifyJob server jobid _).ge, ?_⟩
        intro other new _ foundNew alive
        obtain ⟨old, was, rfl⟩ := Assign.job_modifyJob foundNew
        split at alive
        · rename_i same
          subst same
          refine ⟨job, found, ?_⟩
          rwa [deleted_jobAssignClient] at alive
        · exact ⟨old, was, alive⟩
      exact modified.trans (Settled.of_jobs rfl)
    · exact Settled.refl server
  · exact Settled.refl server

theorem jobs_resume (i : Nat) (notifyId : Util.CString) :
    (server.resume i notifyId).jobs = server.jobs := by
  rw [Server.resume]
  split
  · split <;> rfl
  · split
    · split <;> rfl
    · rfl

theorem jobs_clientAuthorize (i coinid last : Nat) :
    (server.clientAuthorize i coinid last).jobs = server.jobs := by
  rw [Server.clientAuthorize]
  split <;> rfl

theorem settled_nextJob (jobid : Nat) (canMine : Bool) :
    Settled server (server.nextJob jobid canMine) := by
  rw [Server.nextJob]
  split
  · dsimp only
    split
    · have assigned :
          Settled server
            (Server.jobAssignClients
              { server with
                waiting := server.waiting.filter fun other => other != jobid
                current := 0 } jobid) := by
        apply Settled.modifyJob
        · exact Settled.of_jobs rfl
        · exact fun _ alive => alive
      exact assigned.trans (Settled.of_jobs rfl)
    · exact Settled.of_jobs rfl
  · exact Settled.refl server

theorem settled_jobBroadcast (jobid i : Nat) (lost : Bool) :
    Settled server (server.jobBroadcast jobid i lost) := by
  rw [Server.jobBroadcast]
  split
  · exact Settled.of_jobs rfl
  · exact Settled.refl server

theorem settled_step (config : Config) (action : Action) :
    Settled server (Assign.step config server action) := by
  cases action with
  | connect => exact Settled.of_jobs rfl
  | subscribe i key notifyId difficulty proxy =>
      exact Settled.of_jobs (jobs_resume _ i notifyId)
  | extranonceSubscribe i => exact Settled.of_jobs rfl
  | authorize i coinid last =>
      exact Settled.of_jobs (jobs_clientAuthorize server i coinid last)
  | measure i speed difficulty fixed => exact Settled.of_jobs rfl
  | disconnect i => exact Settled.of_jobs rfl
  | jobUpdate => exact Settled.of_jobs rfl
  | nextJob jobid canMine => exact settled_nextJob server jobid canMine
  | assignClient i maxhash =>
      exact settled_assignClient server config server.current i maxhash
  | jobsDone => exact Settled.of_jobs rfl
  | jobAssignClientsLeft jobid =>
      rw [Assign.step, Server.jobAssignClientsLeft]
      split
      · exact settled_jobAssignClients server jobid
      · exact Settled.refl server
  | assignClientLeft jobid i maxhash =>
      rw [Assign.step, Server.assignClientLeft]
      split
      · exact settled_assignClient server config jobid i maxhash
      · exact Settled.refl server
  | jobUnlockClients jobid => exact Settled.of_jobs rfl
  | jobResetClients jobid => exact Settled.of_jobs rfl
  | jobBroadcast jobid i lost => exact settled_jobBroadcast server jobid i lost
  | createJob old source => exact settled_createJob server old source
  | deleteJob jobid => exact settled_deleteJob server jobid
  | freeJob jobid =>
      apply settled_modifyJob
      intro job alive
      split at alive <;> exact alive
  | clientSort position =>
      apply Settled.of_jobs
      rw [Assign.step, Server.clientSort]
      split <;> rfl
  | pruneClients => exact Settled.of_jobs rfl

theorem settled_jobAssignLockedClients (jobid : Nat) :
    Settled server (State.jobAssignLockedClients jobid server) := by
  have folded : ∀ (listed : List Nat) (start : Server),
      Settled start (listed.foldl (State.assignLockedClient jobid) start) := by
    intro listed
    induction listed with
    | nil => exact Settled.refl
    | cons i listed ih =>
        intro start
        refine Settled.trans ?_ (ih (State.assignLockedClient jobid start i))
        rw [State.assignLockedClient]
        split
        · exact Settled.refl start
        · split
          · apply Settled.modifyJob
            · exact Settled.of_jobs rfl
            · exact fun _ alive => alive
          · exact Settled.refl start
  exact (settled_jobAssignClients server jobid).trans (folded _ _)

end Server

end YiimpStratum.Remote
