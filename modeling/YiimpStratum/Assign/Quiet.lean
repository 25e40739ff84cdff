import YiimpStratum.Assign.Careful

/-!
# What keeps extranonces apart

The invariant of the assignment, and the steps that give no client a new
nonce or a new job.  The nonces of a remote job are told apart by the numbers
in its table, also for a client that the job was last sent to, since such a
client keeps its nonce when it gets the job again.
-/

namespace YiimpStratum.Assign

open YiimpStratum.Util

/-! ## The invariant -/

/-- The client is assigned the job, or the job was the last sent to it. -/
def WorksOn (client : YaampClient) (jobid : Nat) : Prop :=
  client.jobidNext = jobid ∨ client.jobidSent = jobid

/-- The numbers of clients and jobs, and the counts of the remote jobs. -/
structure Bookkeeping (server : Server) : Prop where
  numbered : ∀ i ∈ server.listed, i < server.clients.length
  unlisted :
    ∀ (i : Nat) (client : YaampClient), server.clients[i]? = some client →
      i ∉ server.listed → client.deleted = false →
        client.jobidNext = 0 ∧ client.jobidSent = 0
  bounded :
    ∀ (i : Nat) (client : YaampClient), server.clients[i]? = some client →
      client.jobidNext ≤ server.jobs.length ∧
        client.jobidSent ≤ server.jobs.length
  positive : ∀ jobid ∈ server.waiting, jobid ≠ 0
  away : server.current ∉ server.waiting
  waiting :
    ∀ jobid ∈ server.waiting, ∀ job, server.job jobid = some job →
      job.isRemote = true → ∀ i client, server.Serves i client →
        client.jobidNext ≠ jobid
  counted :
    ∀ jobid job, server.job jobid = some job → job.isRemote = true →
      ∀ i client, server.Serves i client → client.jobidNext = jobid →
        job.count ≠ 0

/-- What every careful step keeps about the nonces. -/
structure SearchInvariant (config : Config) (server : Server) : Prop
    extends Bookkeeping server where
  distinct : SearchSpacesDistinct server
  defaults :
    ∀ i k client other, server.Serves i client → server.Serves k other →
      i ≠ k →
        config.extranonce1 client.extranonce1Default ≠
          config.extranonce1 other.extranonce1Default
  apart :
    ∀ jobid job, server.job jobid = some job → Live server jobid job →
      ∀ i k client other, server.Serves i client → server.Serves k other →
        i ≠ k → WorksOn client jobid → WorksOn other jobid →
          job.HandsOut client.extranonce1 →
            client.extranonce1 ≠ other.extranonce1
  reserved :
    ∀ jobid job, server.job jobid = some job → Live server jobid job →
      ∀ i client, server.Serves i client → WorksOn client jobid →
        ¬ job.Spare client.extranonce1

/-! ## Steps that give no nonce -/

/-- A client that has neither a new nonce nor a new job. -/
structure Unmoved (old new : YaampClient) : Prop where
  extranonce1 : new.extranonce1 = old.extranonce1
  extranonce1Default : new.extranonce1Default = old.extranonce1Default
  jobidNext : new.jobidNext = old.jobidNext ∨ new.jobidNext = 0
  jobidSent : new.jobidSent = old.jobidSent ∨ new.jobidSent = old.jobidNext
  deleted : new.deleted = false → old.deleted = false
  reconnecting : new.reconnecting = old.reconnecting

/-- A client that is not touched has not moved. -/
theorem Unmoved.refl (client : YaampClient) : Unmoved client client where
  extranonce1 := rfl
  extranonce1Default := rfl
  jobidNext := Or.inl rfl
  jobidSent := Or.inl rfl
  deleted := id
  reconnecting := rfl

/-- A client that has not moved works on no new job. -/
theorem Unmoved.worksOn
    {old new : YaampClient} (unmoved : Unmoved old new) {jobid : Nat}
    (positive : jobid ≠ 0) (works : WorksOn new jobid) :
    WorksOn old jobid := by
  rcases works with next | sent
  · rcases unmoved.jobidNext with same | unset
    · exact Or.inl (same.symm.trans next)
    · exact absurd (next.symm.trans unset) positive
  · rcases unmoved.jobidSent with same | moved
    · exact Or.inr (same.symm.trans sent)
    · exact Or.inl (moved.symm.trans sent)

/-- A job that may have reserved more numbers and counted more clients. -/
structure Grown (old new : YaampJob) : Prop where
  source : new.source = old.source
  subids :
    ∀ subid, new.remoteSubids subid = false →
      old.remoteSubids subid = false
  deleted : new.deleted = false → old.deleted = false
  count : new.isRemote = true → old.count ≠ 0 → new.count ≠ 0

/-- A job that is not touched hands out nothing new. -/
theorem Grown.refl (job : YaampJob) : Grown job job where
  source := rfl
  subids := fun _ free => free
  deleted := id
  count := fun _ => id

/-- The kind of a job depends on its source only. -/
theorem isRemote_congr {old new : YaampJob}
    (same : new.source = old.source) : new.isRemote = old.isRemote := by
  rw [YaampJob.isRemote, YaampJob.isRemote, same]

/-- The nonces of a job depend on its source only. -/
theorem handsOut_congr {old new : YaampJob} {nonce : CString}
    (same : new.source = old.source) :
    new.HandsOut nonce ↔ old.HandsOut nonce := by
  rw [YaampJob.handsOut_iff, YaampJob.handsOut_iff, same]

/-- The spare nonces depend on the source and on what is reserved. -/
theorem spare_congr {old new : YaampJob} {nonce : CString}
    (same : new.source = old.source)
    (subids : new.remoteSubids = old.remoteSubids) :
    new.Spare nonce ↔ old.Spare nonce := by
  rw [YaampJob.spare_iff, YaampJob.spare_iff, same, subids]

/-- A grown job has no spare nonce that it did not have before. -/
theorem Grown.spare
    {old new : YaampJob} (grown : Grown old new) {nonce : CString}
    (spare : new.Spare nonce) : old.Spare nonce := by
  obtain ⟨remote, source, size, subid, free, same⟩ :=
    YaampJob.spare_iff.mp spare
  exact YaampJob.spare_iff.mpr
    ⟨remote, grown.source.symm.trans source, size, subid,
      grown.subids subid free, same⟩

/-- No client gets a nonce or a job. -/
structure Quiet (before after : Server) : Prop where
  clients :
    ∀ i new, after.clients[i]? = some new →
      (∃ old, before.clients[i]? = some old ∧ Unmoved old new) ∨
        new = YaampClient.connected ∧ i ∉ after.listed
  length : before.clients.length ≤ after.clients.length
  listed : ∀ i ∈ after.listed, i ∈ before.listed
  unlisted :
    ∀ i ∈ before.listed, i ∉ after.listed →
      ∀ new, after.clients[i]? = some new → new.deleted = true
  jobsLength : before.jobs.length ≤ after.jobs.length
  jobs :
    ∀ jobid ≤ before.jobs.length, ∀ new, after.job jobid = some new →
      ∃ old, before.job jobid = some old ∧ Grown old new
  waiting : ∀ jobid ∈ after.waiting, jobid ∈ before.waiting
  current : after.current = before.current ∨ after.current = 0

/-- No job has the number zero. -/
theorem job_zero {server : Server} {job : YaampJob}
    (found : server.job 0 = some job) : False := by
  simp [Server.job] at found

/-- The number of a job is not zero. -/
theorem pos_of_job
    {server : Server} {jobid : Nat} {job : YaampJob}
    (found : server.job jobid = some job) : jobid ≠ 0 := by
  rintro rfl
  exact job_zero found

/-- The number of a job is at most the number of jobs. -/
theorem le_of_job
    {server : Server} {jobid : Nat} {job : YaampJob}
    (found : server.job jobid = some job) : jobid ≤ server.jobs.length := by
  rw [Server.job] at found
  split at found
  · exact absurd found (by simp)
  · have bound := (List.getElem?_eq_some_iff.mp found).1
    omega

namespace Quiet

variable {before after : Server}

/-- A client that is served after a quiet step was served before it. -/
theorem serves
    (quiet : Quiet before after) {i : Nat} {new : YaampClient}
    (serves : after.Serves i new) :
    ∃ old, before.Serves i old ∧ Unmoved old new := by
  obtain ⟨at_i, listed, alive, connected⟩ := serves
  rcases quiet.clients i new at_i with ⟨old, was, unmoved⟩ | ⟨-, unlisted⟩
  · exact ⟨old,
      ⟨was, quiet.listed i listed, unmoved.deleted alive,
        unmoved.reconnecting.symm.trans connected⟩, unmoved⟩
  · exact absurd listed unlisted

/-- A client that works on a job of the new state did so before. -/
theorem worked
    (books : Bookkeeping before)
    {jobid : Nat} {new : YaampJob} (found : after.job jobid = some new)
    {i : Nat} {old client : YaampClient}
    (served : before.Serves i old) (unmoved : Unmoved old client)
    (works : WorksOn client jobid) :
    WorksOn old jobid ∧ jobid ≤ before.jobs.length := by
  have worked := unmoved.worksOn (pos_of_job found) works
  have bounds := books.bounded i old served.1
  refine ⟨worked, ?_⟩
  rcases worked with rfl | rfl
  · exact bounds.1
  · exact bounds.2

/-- A job that is live after a quiet step was live before it. -/
theorem live
    (quiet : Quiet before after) {jobid : Nat} {old new : YaampJob}
    (alive : new.deleted = false → old.deleted = false)
    (found : after.job jobid = some new)
    (live : Live after jobid new) : Live before jobid old := by
  rcases live with kept | current
  · exact Or.inl (alive kept)
  · rcases quiet.current with same | unset
    · exact Or.inr (current.trans same)
    · exact absurd (current.trans unset) (pos_of_job found)

end Quiet

/-- Quiet steps keep the books. -/
theorem Bookkeeping.quiet
    {before after : Server} (books : Bookkeeping before)
    (quiet : Quiet before after) : Bookkeeping after where
  numbered := fun i listed =>
    lt_of_lt_of_le (books.numbered i (quiet.listed i listed)) quiet.length
  unlisted := by
    intro i client at_i unlisted alive
    rcases quiet.clients i client at_i with ⟨old, was, unmoved⟩ | ⟨rfl, -⟩
    · have never : i ∉ before.listed := fun listed =>
        absurd (quiet.unlisted i listed unlisted client at_i)
          (by simp [alive])
      obtain ⟨next, sent⟩ :=
        books.unlisted i old was never (unmoved.deleted alive)
      constructor
      · rcases unmoved.jobidNext with same | unset
        · exact same.trans next
        · exact unset
      · rcases unmoved.jobidSent with same | moved
        · exact same.trans sent
        · exact moved.trans next
    · exact ⟨rfl, rfl⟩
  bounded := by
    intro i client at_i
    rcases quiet.clients i client at_i with ⟨old, was, unmoved⟩ | ⟨rfl, -⟩
    · obtain ⟨next, sent⟩ := books.bounded i old was
      have longer := quiet.jobsLength
      constructor
      · rcases unmoved.jobidNext with same | unset <;> omega
      · rcases unmoved.jobidSent with same | moved <;> omega
    · exact ⟨Nat.zero_le _, Nat.zero_le _⟩
  positive := fun jobid waits =>
    books.positive jobid (quiet.waiting jobid waits)
  away := by
    intro waits
    rcases quiet.current with same | unset
    · exact books.away (same ▸ quiet.waiting _ waits)
    · rw [unset] at waits
      exact books.positive 0 (quiet.waiting 0 waits) rfl
  waiting := by
    intro jobid waits job found remote i client served next
    obtain ⟨old, was, unmoved⟩ := quiet.serves served
    obtain ⟨-, bound⟩ :=
      Quiet.worked books found was unmoved (Or.inl next)
    obtain ⟨job', found', grown⟩ := quiet.jobs jobid bound job found
    apply books.waiting jobid (quiet.waiting jobid waits) job' found'
      ((isRemote_congr grown.source).symm.trans remote) i old was
    rcases unmoved.jobidNext with same | unset
    · exact same.symm.trans next
    · exact absurd (next.symm.trans unset) (pos_of_job found)
  counted := by
    intro jobid job found remote i client served next
    obtain ⟨old, was, unmoved⟩ := quiet.serves served
    obtain ⟨-, bound⟩ :=
      Quiet.worked books found was unmoved (Or.inl next)
    obtain ⟨job', found', grown⟩ := quiet.jobs jobid bound job found
    apply grown.count remote
    apply books.counted jobid job' found'
      ((isRemote_congr grown.source).symm.trans remote) i old was
    rcases unmoved.jobidNext with same | unset
    · exact same.symm.trans next
    · exact absurd (next.symm.trans unset) (pos_of_job found)

/-- Quiet steps keep the search spaces apart. -/
theorem Quiet.searchInvariant
    {config : Config} {before after : Server} (quiet : Quiet before after)
    (invariant : SearchInvariant config before) :
    SearchInvariant config after where
  toBookkeeping := invariant.toBookkeeping.quiet quiet
  distinct := by
    intro i k client other served otherServed different assigned same
    obtain ⟨old, was, unmoved⟩ := quiet.serves served
    obtain ⟨oldOther, otherWas, otherUnmoved⟩ := quiet.serves otherServed
    have next : old.jobidNext = client.jobidNext := by
      rcases unmoved.jobidNext with kept | unset
      · exact kept.symm
      · exact absurd unset assigned
    have otherNext : oldOther.jobidNext = other.jobidNext := by
      rcases otherUnmoved.jobidNext with kept | unset
      · exact kept.symm
      · exact absurd (same.trans unset) assigned
    rw [unmoved.extranonce1, otherUnmoved.extranonce1]
    exact invariant.distinct i k old oldOther was otherWas different
      (next ▸ assigned) (next.trans (same.trans otherNext.symm))
  defaults := by
    intro i k client other served otherServed different
    obtain ⟨old, was, unmoved⟩ := quiet.serves served
    obtain ⟨oldOther, otherWas, otherUnmoved⟩ := quiet.serves otherServed
    rw [unmoved.extranonce1Default, otherUnmoved.extranonce1Default]
    exact invariant.defaults i k old oldOther was otherWas different
  apart := by
    intro jobid job found live i k client other served otherServed different
      works otherWorks handsOut
    obtain ⟨old, was, unmoved⟩ := quiet.serves served
    obtain ⟨oldOther, otherWas, otherUnmoved⟩ := quiet.serves otherServed
    obtain ⟨worked, bound⟩ :=
      Quiet.worked invariant.toBookkeeping found was unmoved works
    obtain ⟨otherWorked, -⟩ :=
      Quiet.worked invariant.toBookkeeping found otherWas otherUnmoved
        otherWorks
    obtain ⟨job', found', grown⟩ := quiet.jobs jobid bound job found
    rw [unmoved.extranonce1, handsOut_congr grown.source] at handsOut
    rw [unmoved.extranonce1, otherUnmoved.extranonce1]
    exact invariant.apart jobid job' found'
      (quiet.live grown.deleted found live) i k old oldOther was otherWas
      different worked otherWorked handsOut
  reserved := by
    intro jobid job found live i client served works spare
    obtain ⟨old, was, unmoved⟩ := quiet.serves served
    obtain ⟨worked, bound⟩ :=
      Quiet.worked invariant.toBookkeeping found was unmoved works
    obtain ⟨job', found', grown⟩ := quiet.jobs jobid bound job found
    rw [unmoved.extranonce1] at spare
    exact invariant.reserved jobid job' found'
      (quiet.live grown.deleted found live) i old was worked
      (grown.spare spare)

/-! ## Quiet steps -/

section QuietSteps

variable {server : Server}

/-- Jobs are untouched. -/
theorem quietJobs {after : Server} (same : after.jobs = server.jobs) :
    ∀ jobid ≤ server.jobs.length, ∀ new, after.job jobid = some new →
      ∃ old, server.job jobid = some old ∧ Grown old new := by
  intro jobid _ new found
  rw [Server.job, same] at found
  exact ⟨new, found, Grown.refl new⟩

/-- A change that moves no client is quiet. -/
theorem quiet_modifyClient
    {i : Nat} {change : YaampClient → YaampClient}
    (unmoved : ∀ client, Unmoved client (change client)) :
    Quiet server (server.modifyClient i change) where
  clients := by
    intro k new at_k
    rw [Server.modifyClient, List.getElem?_modify] at at_k
    obtain ⟨old, was, rfl⟩ := Option.map_eq_some_iff.mp at_k
    refine Or.inl ⟨old, was, ?_⟩
    split
    · exact unmoved old
    · exact Unmoved.refl old
  length := by rw [Server.modifyClient, List.length_modify]
  listed := fun _ listed => listed
  unlisted := fun _ listed unlisted => absurd listed unlisted
  jobsLength := le_refl _
  jobs := quietJobs rfl
  waiting := fun _ waits => waits
  current := Or.inl rfl

/-- A change of the listed clients that moves none of them is quiet. -/
theorem quiet_modifyListed
    {change : YaampClient → YaampClient}
    (unmoved : ∀ client, Unmoved client (change client)) :
    Quiet server (server.modifyListed change) where
  clients := by
    intro k new at_k
    rw [Server.modifyListed, List.getElem?_mapIdx] at at_k
    obtain ⟨old, was, rfl⟩ := Option.map_eq_some_iff.mp at_k
    refine Or.inl ⟨old, was, ?_⟩
    split
    · exact unmoved old
    · exact Unmoved.refl old
  length := by rw [Server.modifyListed, List.length_mapIdx]
  listed := fun _ listed => listed
  unlisted := fun _ listed unlisted => absurd listed unlisted
  jobsLength := le_refl _
  jobs := quietJobs rfl
  waiting := fun _ waits => waits
  current := Or.inl rfl

/-- A job after a change is the changed one or an old one. -/
theorem job_modifyJob
    {jobid other : Nat} {change : YaampJob → YaampJob} {new : YaampJob}
    (found : (server.modifyJob jobid change).job other = some new) :
    ∃ old, server.job other = some old ∧
      new = if other = jobid then change old else old := by
  rw [Server.modifyJob] at found
  split at found
  · rename_i unnumbered
    refine ⟨new, found, ?_⟩
    rw [if_neg]
    rintro rfl
    exact pos_of_job found unnumbered
  · rename_i positive
    rw [Server.job] at found ⊢
    split at found
    · exact absurd found (by simp)
    · rename_i otherPositive
      rw [if_neg otherPositive]
      rw [List.getElem?_modify] at found
      obtain ⟨old, was, rfl⟩ := Option.map_eq_some_iff.mp found
      refine ⟨old, was, ?_⟩
      have position : jobid - 1 = other - 1 ↔ other = jobid := by omega
      simp only [position]

/-- A change that lets a job only grow is quiet. -/
theorem quiet_modifyJob
    {jobid : Nat} {change : YaampJob → YaampJob}
    (grown : ∀ job, server.job jobid = some job → Grown job (change job)) :
    Quiet server (server.modifyJob jobid change) := by
  have clients :
      (server.modifyJob jobid change).clients = server.clients := by
    rw [Server.modifyJob]
    split <;> rfl
  have listed :
      (server.modifyJob jobid change).listed = server.listed := by
    rw [Server.modifyJob]
    split <;> rfl
  exact
    { clients := by
        rw [clients]
        exact fun _ new at_k => Or.inl ⟨new, at_k, Unmoved.refl new⟩
      length := by rw [clients]
      listed := by
        rw [listed]
        exact fun _ listed => listed
      unlisted := by
        rw [listed]
        exact fun _ listed unlisted => absurd listed unlisted
      jobsLength := by
        rw [Server.modifyJob]
        split
        · exact le_refl _
        · rw [List.length_modify]
      jobs := by
        intro other _ new found
        obtain ⟨old, was, rfl⟩ := job_modifyJob found
        refine ⟨old, was, ?_⟩
        split
        · rename_i same
          exact grown old (same ▸ was)
        · exact Grown.refl old
      waiting := by
        rw [Server.modifyJob]
        split <;> exact fun _ waits => waits
      current := by
        rw [Server.modifyJob]
        split <;> exact Or.inl rfl }

/-- Doing nothing is quiet. -/
theorem quiet_refl : Quiet server server where
  clients := fun _ new at_k => Or.inl ⟨new, at_k, Unmoved.refl new⟩
  length := le_refl _
  listed := fun _ listed => listed
  unlisted := fun _ listed unlisted => absurd listed unlisted
  jobsLength := le_refl _
  jobs := quietJobs rfl
  waiting := fun _ waits => waits
  current := Or.inl rfl

/-- A new connection is not served yet. -/
theorem quiet_connect (books : Bookkeeping server) :
    Quiet server server.connect where
  clients := by
    intro i new at_i
    rw [Server.connect] at at_i
    rcases Nat.lt_or_ge i server.clients.length with old | added
    · rw [List.getElem?_append_left old] at at_i
      exact Or.inl ⟨new, at_i, Unmoved.refl new⟩
    · rw [List.getElem?_append_right added,
        List.getElem?_singleton] at at_i
      split at at_i
      · refine Or.inr ⟨(Option.some.inj at_i).symm, fun listed => ?_⟩
        have numbered := books.numbered i listed
        omega
      · exact absurd at_i (by simp)
  length := by
    rw [Server.connect, List.length_append]
    exact Nat.le_add_right _ _
  listed := fun _ listed => listed
  unlisted := fun _ listed unlisted => absurd listed unlisted
  jobsLength := le_refl _
  jobs := quietJobs rfl
  waiting := fun _ waits => waits
  current := Or.inl rfl

/-- The end of the loop over the jobs is quiet. -/
theorem quiet_jobsDone : Quiet server server.jobsDone where
  clients := fun _ new at_i => Or.inl ⟨new, at_i, Unmoved.refl new⟩
  length := le_refl _
  listed := fun _ listed => listed
  unlisted := fun _ listed unlisted => absurd listed unlisted
  jobsLength := le_refl _
  jobs := quietJobs rfl
  waiting := by
    intro jobid waits
    rw [Server.jobsDone] at waits
    exact absurd waits (by simp)
  current := Or.inr rfl

/-- Going on to the next job is quiet. -/
theorem quiet_jobAssignClientsLeft (jobid : Nat) :
    Quiet server (server.jobAssignClientsLeft jobid) := by
  rw [Server.jobAssignClientsLeft]
  split
  · rename_i coin
    apply quiet_modifyJob
    intro job found
    refine ⟨rfl, fun _ free => free, id, fun remote => ?_⟩
    have remains : job.isRemote = true := remote
    rw [found, Option.any_some, remains] at coin
    exact absurd coin (by simp)
  · exact quiet_refl

/-- Sending a job is quiet: the nonce does not change. -/
theorem quiet_jobBroadcast (jobid i : Nat) (lost : Bool) :
    Quiet server (server.jobBroadcast jobid i lost) := by
  rw [Server.jobBroadcast]
  split
  · apply quiet_modifyClient
    intro client
    split
    · rename_i sends
      have sent :
          Unmoved client
            ({ client with jobidSent := jobid }.addJobHistory jobid) := by
        rw [YaampClient.addJobHistory]
        split <;> exact ⟨rfl, rfl, Or.inl rfl, Or.inr sends.2.1.symm, id, rfl⟩
      cases lost with
      | false => exact sent
      | true =>
          exact
            { sent with
              deleted := fun alive => absurd alive (by
                simp [YaampClient.setHeader, YaampObject.delete]) }
    · exact Unmoved.refl client
  · exact quiet_refl

/-- Sorting the clients is quiet. -/
theorem quiet_clientSort (position : Nat) :
    Quiet server (server.clientSort position) := by
  rw [Server.clientSort]
  split
  · rename_i i j at_position at_next
    exact
      { clients := fun _ new at_k => Or.inl ⟨new, at_k, Unmoved.refl new⟩
        length := le_refl _
        listed := by
          intro k listed
          rcases List.mem_or_eq_of_mem_set listed with first | rfl
          · rcases List.mem_or_eq_of_mem_set first with old | rfl
            · exact old
            · exact List.mem_of_getElem? at_next
          · exact List.mem_of_getElem? at_position
        unlisted := by
          intro k listed unlisted
          refine absurd ?_ unlisted
          obtain ⟨m, at_m⟩ := List.mem_iff_getElem?.mp listed
          have first := (List.getElem?_eq_some_iff.mp at_position).1
          have second := (List.getElem?_eq_some_iff.mp at_next).1
          rcases eq_or_ne m position with rfl | notFirst
          · -- The first of the two is now the second.
            rw [at_position, Option.some.injEq] at at_m
            apply List.mem_of_getElem? (i := m + 1)
            rw [List.getElem?_set_self (by simpa using second), at_m]
          · rcases eq_or_ne m (position + 1) with rfl | notSecond
            · rw [at_next, Option.some.injEq] at at_m
              apply List.mem_of_getElem? (i := position)
              rw [List.getElem?_set_ne (by omega),
                List.getElem?_set_self first, at_m]
            · apply List.mem_of_getElem? (i := m)
              rw [List.getElem?_set_ne notSecond.symm,
                List.getElem?_set_ne notFirst.symm, at_m]
        jobsLength := le_refl _
        jobs := quietJobs rfl
        waiting := fun _ waits => waits
        current := Or.inl rfl }
  · exact quiet_refl

/-- Deleted clients leave the list. -/
theorem quiet_unlist
    {kept : List Nat} (listed : ∀ i ∈ kept, i ∈ server.listed)
    (unlisted :
      ∀ i ∈ server.listed, i ∉ kept →
        ∀ client, server.clients[i]? = some client → client.deleted = true) :
    Quiet server { server with listed := kept } where
  clients := fun _ new at_k => Or.inl ⟨new, at_k, Unmoved.refl new⟩
  length := le_refl _
  listed := listed
  unlisted := unlisted
  jobsLength := le_refl _
  jobs := quietJobs rfl
  waiting := fun _ waits => waits
  current := Or.inl rfl

/-- A job is added. -/
theorem quiet_appendJob (job : YaampJob) :
    Quiet server { server with jobs := server.jobs ++ [job] } where
  clients := fun _ new at_k => Or.inl ⟨new, at_k, Unmoved.refl new⟩
  length := le_refl _
  listed := fun _ listed => listed
  unlisted := fun _ listed unlisted => absurd listed unlisted
  jobsLength := by
    rw [List.length_append]
    exact Nat.le_add_right _ _
  jobs := by
    intro jobid bound new found
    refine ⟨new, ?_, Grown.refl new⟩
    rw [Server.job] at found ⊢
    split at found
    · exact absurd found (by simp)
    · rename_i positive
      rwa [if_neg positive, ← List.getElem?_append_left (by omega)]
  waiting := fun _ waits => waits
  current := Or.inl rfl

end QuietSteps

namespace SearchInvariant

variable {config : Config} {server : Server}

/-- Locking clients to a new job takes no nonce. -/
theorem jobRelockClients
    (invariant : SearchInvariant config server) (old new : Nat) :
    SearchInvariant config (server.jobRelockClients old new) := by
  rw [Server.jobRelockClients]
  split
  · exact invariant
  · apply (quiet_modifyListed ?_).searchInvariant invariant
    intro client
    split
    · exact ⟨rfl, rfl, Or.inl rfl, Or.inl rfl, id, rfl⟩
    · exact Unmoved.refl client

/-- Deleting a job takes no nonce. -/
theorem deleteJob
    (invariant : SearchInvariant config server) (jobid : Nat) :
    SearchInvariant config
      (server.modifyJob jobid fun job => { job with deleted := true }) := by
  apply (quiet_modifyJob ?_).searchInvariant invariant
  intro job _
  exact ⟨rfl, fun _ free => free, fun gone => Bool.noConfusion gone,
    fun _ => id⟩

/-- A new job has handed out nothing yet. -/
theorem createJob
    (invariant : SearchInvariant config server) (old : Nat)
    (source : Source) :
    SearchInvariant config (server.createJob old source) := by
  have created :=
    (quiet_appendJob (YaampJob.create source)).searchInvariant
      (invariant.deleteJob old)
  cases source with
  | coind id => exact created
  | remote remote =>
      exact created.jobRelockClients old (server.jobs.length + 1)

/-- Taking the work of clients gives no nonce away. -/
theorem jobResetClients
    (invariant : SearchInvariant config server) (jobid : Nat) :
    SearchInvariant config (server.jobResetClients jobid) := by
  apply (quiet_modifyListed ?_).searchInvariant invariant
  intro client
  split
  · exact ⟨rfl, rfl, Or.inr rfl, Or.inl rfl, id, rfl⟩
  · exact Unmoved.refl client

/-- Unlocking clients gives no nonce away. -/
theorem jobUnlockClients
    (invariant : SearchInvariant config server) (jobid : Nat) :
    SearchInvariant config (server.jobUnlockClients jobid) := by
  apply (quiet_modifyListed ?_).searchInvariant invariant
  intro client
  split
  · exact ⟨rfl, rfl, Or.inl rfl, Or.inl rfl, id, rfl⟩
  · exact Unmoved.refl client

/-- Freeing a job keeps the search spaces apart. -/
theorem freeJob
    (invariant : SearchInvariant config server) (jobid : Nat) :
    SearchInvariant config (server.freeJob jobid) := by
  apply (quiet_modifyJob ?_).searchInvariant invariant
  intro job _
  split
  · exact ⟨rfl, fun _ free => free, id, fun _ => id⟩
  · exact Grown.refl job

/-- Freeing clients keeps the search spaces apart. -/
theorem pruneClients (invariant : SearchInvariant config server) :
    SearchInvariant config server.pruneClients := by
  have released :
      SearchInvariant config
        (server.modifyListed fun client =>
          client.setHeader client.toYaampObject.release) := by
    apply (quiet_modifyListed ?_).searchInvariant invariant
    intro client
    exact ⟨rfl, rfl, Or.inl rfl, Or.inl rfl,
      fun alive => (YaampObject.release_deleted _).symm.trans alive, rfl⟩
  apply (quiet_unlist _ _).searchInvariant released
  · intro i listed
    exact (List.mem_filter.mp listed).1
  · intro i listed unlisted client at_i
    rw [Server.modifyListed, List.getElem?_mapIdx, Option.map_eq_some_iff]
      at at_i
    obtain ⟨old, was, rfl⟩ := at_i
    have inList : i ∈ server.listed := listed
    rw [if_pos inList]
    have gone : old.prunable = true := by
      by_contra kept
      apply unlisted
      rw [List.mem_filter, was, Option.any_some]
      exact ⟨listed, by simpa using kept⟩
    rw [YaampObject.prunable, Bool.and_eq_true] at gone
    exact (YaampObject.release_deleted _).trans gone.1

/-- The start of `job_update` keeps the search spaces apart. -/
theorem jobUpdate (invariant : SearchInvariant config server) :
    SearchInvariant config server.jobUpdate := by
  have reset := invariant.jobResetClients 0
  have idle (i : Nat) (client : YaampClient)
      (served : (server.jobResetClients 0).Serves i client) :
      client.jobidNext = 0 := by
    obtain ⟨at_i, listed, alive, -⟩ := served
    rw [Server.jobResetClients, Server.modifyListed, List.getElem?_mapIdx,
      Option.map_eq_some_iff] at at_i
    obtain ⟨old, was, rfl⟩ := at_i
    have inList : i ∈ server.listed := listed
    rw [if_pos inList] at alive ⊢
    split
    · rfl
    · rename_i kept
      rw [if_neg kept] at alive
      exact absurd ⟨alive, Or.inl rfl⟩ kept
  have live {jobid : Nat} {job : YaampJob}
      (found : server.jobUpdate.job jobid = some job)
      (live : Live server.jobUpdate jobid job) :
      Live (server.jobResetClients 0) jobid job := by
    rcases live with kept | current
    · exact Or.inl kept
    · exact absurd current (pos_of_job found)
  exact
    { numbered := reset.numbered
      unlisted := reset.unlisted
      bounded := reset.bounded
      positive := by
        intro jobid waits
        rw [Server.jobUpdate, List.mem_range'_1] at waits
        omega
      away := by
        have zero : server.jobUpdate.current = 0 := rfl
        rw [zero, Server.jobUpdate, List.mem_range'_1]
        omega
      waiting := by
        intro jobid waits job found remote i client served
        rw [idle i client served]
        exact (pos_of_job found).symm
      counted := reset.counted
      distinct := reset.distinct
      defaults := reset.defaults
      apart := fun jobid job found alive =>
        reset.apart jobid job found (live found alive)
      reserved := fun jobid job found alive =>
        reset.reserved jobid job found (live found alive) }

/-- `job_update` goes on to a job with a new count. -/
theorem enterJob
    (invariant : SearchInvariant config server) {jobid : Nat}
    (away : jobid ∉ server.waiting)
    (alive : (server.job jobid).any (fun job => !job.deleted) = true)
    (unassigned :
      ∀ job, server.job jobid = some job → job.isRemote = true →
        ∀ i client, server.Serves i client → client.jobidNext ≠ jobid) :
    SearchInvariant config
      { server.jobAssignClients jobid with current := jobid } := by
  have entered :
      server.jobAssignClients jobid =
        { server with jobs := (server.jobAssignClients jobid).jobs } := by
    rw [Server.jobAssignClients, Server.modifyJob]
    split <;> rfl
  have length :
      (server.jobAssignClients jobid).jobs.length = server.jobs.length := by
    rw [Server.jobAssignClients, Server.modifyJob]
    split
    · rfl
    · rw [List.length_modify]
  -- Only the count and the speed of the job are new.
  have jobs {other : Nat} {new : YaampJob}
      (found : (server.jobAssignClients jobid).job other = some new) :
      ∃ old, server.job other = some old ∧
        new.source = old.source ∧ new.remoteSubids = old.remoteSubids ∧
          new.deleted = old.deleted ∧
            (other ≠ jobid → new.count = old.count) := by
    obtain ⟨old, was, rfl⟩ := job_modifyJob found
    refine ⟨old, was, ?_⟩
    split
    · rename_i same
      exact ⟨rfl, rfl, rfl, fun different => absurd same different⟩
    · exact ⟨rfl, rfl, rfl, fun _ => rfl⟩
  have live {other : Nat} {old new : YaampJob}
      (was : server.job other = some old) (same : new.deleted = old.deleted)
      (live : new.deleted = false ∨ other = jobid) :
      Live server other old := by
    rcases live with kept | rfl
    · exact Or.inl (same.symm.trans kept)
    · rw [was, Option.any_some] at alive
      exact Or.inl (by simpa using alive)
  rw [entered] at jobs ⊢
  exact
    { numbered := invariant.numbered
      unlisted := invariant.unlisted
      bounded := by
        simp only [length]
        exact invariant.bounded
      positive := invariant.positive
      away := away
      waiting := by
        intro other waits new found remote
        obtain ⟨old, was, source, -⟩ := jobs found
        exact invariant.waiting other waits old was
          ((isRemote_congr source).symm.trans remote)
      counted := by
        intro other new found remote i client served next
        obtain ⟨old, was, source, -, -, count⟩ := jobs found
        have wasRemote := (isRemote_congr source).symm.trans remote
        rcases eq_or_ne other jobid with rfl | different
        · exact absurd next (unassigned old was wasRemote i client served)
        · rw [count different]
          exact invariant.counted other old was wasRemote i client served next
      distinct := invariant.distinct
      defaults := invariant.defaults
      apart := by
        intro other new found alive i k client _ served otherServed different
          works otherWorks handsOut
        obtain ⟨old, was, source, -, deleted, -⟩ := jobs found
        exact invariant.apart other old was (live was deleted alive) i k
          client _ served otherServed different works otherWorks
          ((handsOut_congr source).mp handsOut)
      reserved := by
        intro other new found alive i client served works spare
        obtain ⟨old, was, source, subids, deleted, -⟩ := jobs found
        exact invariant.reserved other old was (live was deleted alive) i
          client served works ((spare_congr source subids).mp spare) }

/-- Going on to the next job keeps the search spaces apart. -/
theorem nextJob
    (invariant : SearchInvariant config server) (jobid : Nat)
    (canMine : Bool) :
    SearchInvariant config (server.nextJob jobid canMine) := by
  rw [Server.nextJob]
  split
  · rename_i waits
    have left :
        SearchInvariant config
          { server with
            waiting := server.waiting.filter fun other => other != jobid
            current := 0 } := by
      apply Quiet.searchInvariant ?_ invariant
      exact
        { quiet_refl with
          waiting := fun other stays => (List.mem_filter.mp stays).1
          current := Or.inr rfl }
    split
    · rename_i mines
      rw [Bool.and_eq_true] at mines
      apply left.enterJob
      · simp
      · exact mines.1
      · exact invariant.waiting jobid waits
    · exact left
  · exact invariant

end SearchInvariant

end YiimpStratum.Assign
