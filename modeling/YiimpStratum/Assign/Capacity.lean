import Mathlib.Tactic.Linarith
import YiimpStratum.Assign.Passes

/-!
# Rented capacity

The clients of a job are those that are not deleted and have its number as
`jobid_next`.  A pass adds to the totals of a job what it adds to the speeds
and the number of its clients, and the totals start at zero when the job has
no client.  So the limits that are checked against the totals hold of the
clients.
-/

namespace YiimpStratum.Assign

/-! ## The clients of a job -/

def isAssigned (jobid : Nat) (client : YaampClient) : Bool :=
  !client.deleted && client.jobidNext == jobid

/-- The sum of the speeds of the clients of a job. -/
def assignedSpeed (jobid : Nat) (clients : List YaampClient) : Rat :=
  ((clients.filter (isAssigned jobid)).map YaampClient.speed).sum

/-- The number of clients of a job. -/
def assignedCount (jobid : Nat) (clients : List YaampClient) : Nat :=
  (clients.filter (isAssigned jobid)).length

theorem assignedSpeed_cons (jobid : Nat) (client : YaampClient)
    (clients : List YaampClient) :
    assignedSpeed jobid (client :: clients) =
      (if isAssigned jobid client then client.speed else 0) +
        assignedSpeed jobid clients := by
  rw [assignedSpeed, List.filter_cons]
  split
  · rw [List.map_cons, List.sum_cons]
    rfl
  · rw [zero_add]
    rfl

theorem assignedCount_cons (jobid : Nat) (client : YaampClient)
    (clients : List YaampClient) :
    assignedCount jobid (client :: clients) =
      (if isAssigned jobid client then 1 else 0) +
        assignedCount jobid clients := by
  rw [assignedCount, List.filter_cons]
  split
  · rw [List.length_cons, Nat.add_comm]
    rfl
  · rw [Nat.zero_add]
    rfl

/-- A change of the clients that keeps who is assigned and how fast. -/
theorem assigned_map (jobid : Nat) {change : YaampClient → YaampClient}
    (same : ∀ client,
      isAssigned jobid (change client) = isAssigned jobid client)
    (speed : ∀ client, (change client).speed = client.speed)
    (clients : List YaampClient) :
    assignedSpeed jobid (clients.map change) = assignedSpeed jobid clients ∧
      assignedCount jobid (clients.map change) =
        assignedCount jobid clients := by
  induction clients with
  | nil =>
      exact ⟨rfl, rfl⟩
  | cons client clients ih =>
      rw [List.map_cons, assignedSpeed_cons, assignedSpeed_cons,
        assignedCount_cons, assignedCount_cons, ih.1, ih.2, same, speed]
      exact ⟨rfl, rfl⟩

theorem assigned_jobUnlockClients (jobid unlocked : Nat)
    (clients : List YaampClient) :
    assignedSpeed jobid (jobUnlockClients unlocked clients) =
        assignedSpeed jobid clients ∧
      assignedCount jobid (jobUnlockClients unlocked clients) =
        assignedCount jobid clients := by
  refine assigned_map jobid (fun client => ?_) (fun client => ?_) clients
  · split
    · rfl
    · rfl
  · split
    · rfl
    · rfl

/-- After `job_reset_clients` no job has a client. -/
theorem assigned_jobResetClients {jobid : Nat} (number : jobid ≠ 0)
    (clients : List YaampClient) :
    assignedSpeed jobid (jobResetClients 0 clients) = 0 ∧
      assignedCount jobid (jobResetClients 0 clients) = 0 := by
  have unassigned :
      (jobResetClients 0 clients).filter (isAssigned jobid) = [] := by
    rw [List.filter_eq_nil_iff]
    intro client member assigned
    obtain ⟨before, -, rfl⟩ := List.mem_map.mp member
    rw [isAssigned, Bool.and_eq_true, Bool.not_eq_true', beq_iff_eq] at assigned
    split at assigned
    · exact number assigned.2.symm
    · rename_i kept
      exact kept ⟨assigned.1, Or.inl rfl⟩
  rw [assignedSpeed, assignedCount, unassigned]
  exact ⟨rfl, rfl⟩

/-! ## Passes and totals -/

/-- The limits of a job hold of its totals. -/
def WithinLimits (maxhash : Rat) (job : YaampJob) : Prop :=
  (0 < maxhash → job.speed ≤ maxhash) ∧
    ∀ remote, job.source = .remote remote →
      job.count ≤ 200 ∧ (remote.nonce2size = 2 → job.count ≤ 1)

/-- How jobs and clients may differ before and after a part of a pass. -/
structure Passed (jobid : Nat) (maxhash : Rat) (job : YaampJob)
    (clients : List YaampClient) (job' : YaampJob)
    (clients' : List YaampClient) : Prop where
  source : job'.source = job.source
  speed : job'.speed + assignedSpeed jobid clients =
    job.speed + assignedSpeed jobid clients'
  count : job'.count + assignedCount jobid clients =
    job.count + assignedCount jobid clients'
  others : ∀ other, other ≠ 0 → other ≠ jobid →
    assignedSpeed other clients' = assignedSpeed other clients ∧
      assignedCount other clients' = assignedCount other clients
  limits : WithinLimits maxhash job → WithinLimits maxhash job'

namespace Passed

variable {jobid : Nat} {maxhash : Rat} {job job' job'' : YaampJob}
variable {clients clients' clients'' : List YaampClient}

theorem refl (jobid : Nat) (maxhash : Rat) (job : YaampJob)
    (clients : List YaampClient) :
    Passed jobid maxhash job clients job clients where
  source := rfl
  speed := rfl
  count := rfl
  others := fun _ _ _ => ⟨rfl, rfl⟩
  limits := id

theorem trans (first : Passed jobid maxhash job clients job' clients')
    (second : Passed jobid maxhash job' clients' job'' clients'') :
    Passed jobid maxhash job clients job'' clients'' where
  source := second.source.trans first.source
  speed := by linarith [first.speed, second.speed]
  count := by
    have before := first.count
    have after := second.count
    omega
  others := by
    intro other number different
    obtain ⟨speed, count⟩ := first.others other number different
    obtain ⟨speed', count'⟩ := second.others other number different
    exact ⟨speed'.trans speed, count'.trans count⟩
  limits := fun within => second.limits (first.limits within)

/-- A client that the part of the pass does not come to. -/
theorem cons (client : YaampClient)
    (passed : Passed jobid maxhash job clients job' clients') :
    Passed jobid maxhash job (client :: clients) job'
      (client :: clients') where
  source := passed.source
  speed := by
    rw [assignedSpeed_cons, assignedSpeed_cons]
    linarith [passed.speed]
  count := by
    rw [assignedCount_cons, assignedCount_cons]
    have counted := passed.count
    omega
  others := by
    intro other number different
    obtain ⟨speed, count⟩ := passed.others other number different
    rw [assignedSpeed_cons, assignedSpeed_cons, assignedCount_cons,
      assignedCount_cons, speed, count]
    exact ⟨rfl, rfl⟩
  limits := passed.limits

end Passed

/-- A client that takes a job was assigned to none and is assigned to it. -/
theorem Takes.passed {jobid : Nat} (number : jobid ≠ 0) {maxhash : Rat}
    {job given : YaampJob} {client taken : YaampClient}
    (takes : Takes jobid maxhash job client given taken)
    (clients : List YaampClient) :
    Passed jobid maxhash job (client :: clients) given (taken :: clients) := by
  have before : ∀ other, other ≠ 0 → isAssigned other client = false := by
    intro other positive
    rw [isAssigned, takes.free, beq_eq_false_iff_ne.mpr positive.symm,
      Bool.and_false]
  have after : isAssigned jobid taken = true := by
    rw [isAssigned, takes.deleted, takes.next, beq_self_eq_true]
    rfl
  exact
    { source := takes.source
      speed := by
        rw [assignedSpeed_cons, assignedSpeed_cons, before jobid number,
          if_neg Bool.false_ne_true, if_pos after, takes.total, takes.speed]
        ring
      count := by
        rw [assignedCount_cons, assignedCount_cons, before jobid number,
          if_neg Bool.false_ne_true, if_pos after, takes.count]
        omega
      others := by
        intro other positive different
        have elsewhere : isAssigned other taken = false := by
          rw [isAssigned, takes.next,
            beq_eq_false_iff_ne.mpr different.symm, Bool.and_false]
        rw [assignedSpeed_cons, assignedSpeed_cons, assignedCount_cons,
          assignedCount_cons, before other positive, elsewhere]
        exact ⟨rfl, rfl⟩
      limits := by
        intro _
        refine ⟨fun positive => ?_, fun remote source => ?_⟩
        · rw [takes.total]
          exact takes.fits positive
        · obtain ⟨below, single⟩ :=
            takes.room remote (takes.source.symm.trans source)
          rw [takes.count]
          refine ⟨below, fun narrow => ?_⟩
          rw [single narrow] }

/-- What one call of `job_assign_client` does to the totals. -/
theorem passed_jobAssignClient (config : Config) {jobid : Nat}
    (number : jobid ≠ 0) (maxhash : Rat) (job : YaampJob)
    (client : YaampClient) (clients : List YaampClient) :
    Passed jobid maxhash job (client :: clients)
      (jobAssignClient config jobid job client maxhash).2.1
      ((jobAssignClient config jobid job client maxhash).2.2 :: clients) := by
  rcases jobAssignClient_takes config jobid job client maxhash with
    same | takes
  · rw [same]
    exact Passed.refl jobid maxhash job _
  · exact takes.passed number clients

theorem passed_assignPass (config : Config) {jobid : Nat}
    (number : jobid ≠ 0) (maxhash : Rat) (chosen : YaampClient → Bool)
    (job : YaampJob) (clients : List YaampClient) :
    Passed jobid maxhash job clients
      (assignPass config jobid maxhash chosen job clients).1
      (assignPass config jobid maxhash chosen job clients).2 := by
  induction clients generalizing job with
  | nil =>
      exact Passed.refl jobid maxhash job []
  | cons client clients ih =>
      rw [assignPass]
      dsimp only
      split
      · have assigned :=
          passed_jobAssignClient config number maxhash job client clients
        split
        · exact assigned.trans ((ih _).cons _)
        · exact assigned
      · exact (ih job).cons client

/-- The passes of `job_assign_clients` after the totals have been cleared. -/
theorem passed_jobAssignClients (config : Config) {jobid : Nat}
    (number : jobid ≠ 0) (maxhash : Rat) (job : YaampJob)
    (clients : List YaampClient) :
    Passed jobid maxhash { job with speed := 0, count := 0 } clients
      (jobAssignClients config jobid maxhash job clients).1
      (jobAssignClients config jobid maxhash job clients).2 := by
  rw [jobAssignClients]
  refine Passed.trans ?_ (passed_assignPass config number maxhash _ _ _)
  have locked := passed_assignPass config number maxhash (lockedHere jobid)
    { job with speed := 0, count := 0 } clients
  have sent := locked.trans (passed_assignPass config number maxhash
    (fun client => client.jobidSent == jobid) _ _)
  split
  · exact sent.trans (passed_assignPass config number maxhash _ _ _)
  · exact sent

/-! ## The loop over the jobs -/

/-- The clients of a rented job keep within what was rented. -/
def RespectsCapacity (listed : ListedJob) (clients : List YaampClient) : Prop :=
  ∀ remote, listed.job.source = .remote remote → listed.canMine = true →
    0 < listed.maxspeed →
      assignedSpeed listed.id clients ≤ listed.maxspeed ∧
        assignedCount listed.id clients ≤ 200 ∧
          (remote.nonce2size = 2 → assignedCount listed.id clients ≤ 1)

/-- A job without clients respects its capacity. -/
theorem respectsCapacity_of_unassigned {listed : ListedJob}
    {clients : List YaampClient}
    (unassigned : assignedSpeed listed.id clients = 0 ∧
      assignedCount listed.id clients = 0) :
    RespectsCapacity listed clients := by
  intro remote _ _ positive
  rw [unassigned.1, unassigned.2]
  exact ⟨positive.le, Nat.zero_le _, fun _ => Nat.zero_le _⟩

/-- Capacity depends on the totals of the clients only. -/
theorem RespectsCapacity.congr {listed : ListedJob}
    {clients clients' : List YaampClient}
    (same : assignedSpeed listed.id clients' = assignedSpeed listed.id clients ∧
      assignedCount listed.id clients' = assignedCount listed.id clients)
    (respects : RespectsCapacity listed clients) :
    RespectsCapacity listed clients' := by
  intro remote source canMine positive
  rw [same.1, same.2]
  exact respects remote source canMine positive

/-- A job that had no client respects its capacity after its passes. -/
theorem respectsCapacity_jobAssignClients (config : Config)
    {listed : ListedJob} (number : listed.id ≠ 0)
    {clients : List YaampClient}
    (unassigned : assignedSpeed listed.id clients = 0 ∧
      assignedCount listed.id clients = 0) :
    RespectsCapacity listed
      (jobAssignClients config listed.id listed.maxspeed listed.job
        clients).2 := by
  have passed := passed_jobAssignClients config number listed.maxspeed
    listed.job clients
  have cleared : WithinLimits listed.maxspeed
      { listed.job with speed := 0, count := 0 } :=
    ⟨fun positive => positive.le,
      fun _ _ => ⟨Nat.zero_le _, fun _ => Nat.zero_le _⟩⟩
  obtain ⟨total, room⟩ := passed.limits cleared
  have speed := passed.speed
  have count := passed.count
  rw [unassigned.1, add_zero, zero_add] at speed
  rw [unassigned.2, Nat.add_zero, Nat.zero_add] at count
  intro remote source _ positive
  rw [← speed, ← count]
  exact ⟨total positive, room remote (passed.source.trans source)⟩

/-- The loop leaves the clients of the jobs that it does not visit. -/
theorem assigned_jobLoop (config : Config) (jobs : List ListedJob)
    (clients : List YaampClient) (numbers : ∀ listed ∈ jobs, listed.id ≠ 0)
    {other : Nat} (number : other ≠ 0)
    (unvisited : ∀ listed ∈ jobs, listed.id ≠ other) :
    assignedSpeed other (jobLoop config jobs clients).2 =
        assignedSpeed other clients ∧
      assignedCount other (jobLoop config jobs clients).2 =
        assignedCount other clients := by
  induction jobs generalizing clients with
  | nil =>
      exact ⟨rfl, rfl⟩
  | cons listed jobs ih =>
      obtain ⟨positive, restNumbers⟩ := List.forall_mem_cons.mp numbers
      obtain ⟨different, rest⟩ := List.forall_mem_cons.mp unvisited
      rw [jobLoop]
      dsimp only
      split
      · have passed := (passed_jobAssignClients config positive
          listed.maxspeed listed.job clients).others other number
            different.symm
        have unlocked := assigned_jobUnlockClients other listed.id
          (jobAssignClients config listed.id listed.maxspeed listed.job
            clients).2
        split
        · have later := ih (jobUnlockClients listed.id
            (jobAssignClients config listed.id listed.maxspeed listed.job
              clients).2) restNumbers rest
          exact ⟨later.1.trans (unlocked.1.trans passed.1),
            later.2.trans (unlocked.2.trans passed.2)⟩
        · exact ⟨unlocked.1.trans passed.1, unlocked.2.trans passed.2⟩
      · exact ih clients restNumbers rest

/-- The jobs of a list respect their capacity when none had a client. -/
theorem respectsCapacity_jobLoop (config : Config) (jobs : List ListedJob)
    (clients : List YaampClient) (numbers : ∀ listed ∈ jobs, listed.id ≠ 0)
    (distinct : (jobs.map ListedJob.id).Nodup)
    (unassigned : ∀ listed ∈ jobs, assignedSpeed listed.id clients = 0 ∧
      assignedCount listed.id clients = 0) :
    ∀ listed ∈ jobs,
      RespectsCapacity listed (jobLoop config jobs clients).2 := by
  induction jobs generalizing clients with
  | nil =>
      intro listed member
      exact absurd member List.not_mem_nil
  | cons first jobs ih =>
      obtain ⟨positive, restNumbers⟩ := List.forall_mem_cons.mp numbers
      obtain ⟨firstFree, restUnassigned⟩ := List.forall_mem_cons.mp unassigned
      rw [List.map_cons, List.nodup_cons] at distinct
      obtain ⟨fresh, restDistinct⟩ := distinct
      have different : ∀ listed ∈ jobs, listed.id ≠ first.id := by
        intro listed member same
        exact fresh (same ▸ List.mem_map_of_mem member)
      rw [jobLoop]
      dsimp only
      split
      · -- the totals after the passes and the unlocking of this job
        have own := (respectsCapacity_jobAssignClients config positive
          firstFree).congr (assigned_jobUnlockClients first.id first.id _)
        have others : ∀ listed ∈ jobs,
            assignedSpeed listed.id (jobUnlockClients first.id
              (jobAssignClients config first.id first.maxspeed first.job
                clients).2) = 0 ∧
            assignedCount listed.id (jobUnlockClients first.id
              (jobAssignClients config first.id first.maxspeed first.job
                clients).2) = 0 := by
          intro listed member
          have passed := (passed_jobAssignClients config positive
            first.maxspeed first.job clients).others listed.id
              (restNumbers listed member) (different listed member)
          have unlocked := assigned_jobUnlockClients listed.id first.id
            (jobAssignClients config first.id first.maxspeed first.job
              clients).2
          obtain ⟨speed, count⟩ := restUnassigned listed member
          exact ⟨unlocked.1.trans (passed.1.trans speed),
            unlocked.2.trans (passed.2.trans count)⟩
        split
        · intro listed member
          rcases List.mem_cons.mp member with rfl | later
          · exact own.congr (assigned_jobLoop config jobs _ restNumbers
              positive different)
          · exact ih _ restNumbers restDistinct others listed later
        · intro listed member
          rcases List.mem_cons.mp member with rfl | later
          · exact own
          · exact respectsCapacity_of_unassigned (others listed later)
      · intro listed member
        rcases List.mem_cons.mp member with rfl | later
        · refine respectsCapacity_of_unassigned ?_
          obtain ⟨speed, count⟩ := assigned_jobLoop config jobs clients
            restNumbers positive different
          exact ⟨speed.trans firstFree.1, count.trans firstFree.2⟩
        · exact ih clients restNumbers restDistinct restUnassigned listed later

/-- `g_list_job`: the numbers of jobs count from one and are distinct. -/
structure JobList where
  jobs : List ListedJob
  numbers : ∀ listed ∈ jobs, listed.id ≠ 0
  distinct : (jobs.map ListedJob.id).Nodup

/-- Every job of the list respects its capacity. -/
def CapacityRespected (jobs : JobList) (clients : List YaampClient) : Prop :=
  ∀ listed ∈ jobs.jobs, RespectsCapacity listed clients

/--
Whatever the clients and the jobs are, with automatic exchange the loop of
`job_update` gives no rented job more clients or speed than it has room for.
-/
theorem capacity_respected (stratumReconnect decred : Bool) (jobs : JobList)
    (clients : List YaampClient) :
    CapacityRespected jobs
      (jobUpdateJobs
        { autoexchange := true
          stratumReconnect := stratumReconnect
          decred := decred } jobs.jobs clients).2 := by
  have sorted : (jobSort jobs.jobs).Perm jobs.jobs :=
    List.perm_insertionSort _ jobs.jobs
  have numbers : ∀ listed ∈ jobSort jobs.jobs, listed.id ≠ 0 :=
    fun listed member => jobs.numbers listed (sorted.mem_iff.mp member)
  have distinct : ((jobSort jobs.jobs).map ListedJob.id).Nodup :=
    (sorted.map ListedJob.id).nodup_iff.mpr jobs.distinct
  have respects := respectsCapacity_jobLoop
    { autoexchange := true
      stratumReconnect := stratumReconnect
      decred := decred } (jobSort jobs.jobs) (jobResetClients 0 clients)
    numbers distinct fun listed member =>
      assigned_jobResetClients (numbers listed member) clients
  intro listed member
  exact (respects listed (sorted.mem_iff.mpr member)).congr
    (assigned_jobUnlockClients listed.id 0 _)

/-- A rented job with room for a speed of 100, and the job of a coin. -/
def rentedAndOwn : JobList where
  jobs :=
    [{ id := 5
       job := YaampJob.create (.coind 1)
       maxspeed := 0
       profit := 1
       canMine := true },
      { id := 6
        job :=
          YaampJob.create
            (.remote
              { nonce1 := List.replicate 8 '1'
                nonce2size := 4
                difficultyActual := 1 })
        maxspeed := 100
        profit := 2
        canMine := true }]
  numbers := by decide
  distinct := by decide

/-- Two clients that are too fast for the rented job together. -/
def fastMiners : List YaampClient :=
  [{ YaampClient.connected with speed := 60, extranonceSubscribe := true },
    { YaampClient.connected with speed := 60, extranonceSubscribe := true }]

/-- The rented job gets one of the clients, and the coin the other one. -/
theorem capacity_respected_fastMiners :
    CapacityRespected rentedAndOwn
        (jobUpdateJobs
          { autoexchange := true
            stratumReconnect := false
            decred := false } rentedAndOwn.jobs fastMiners).2 ∧
      (jobUpdateJobs
          { autoexchange := true
            stratumReconnect := false
            decred := false } rentedAndOwn.jobs fastMiners).2.map
          YaampClient.jobidNext =
        [6, 5] :=
  ⟨capacity_respected false false rentedAndOwn fastMiners,
    by decide +kernel⟩

end YiimpStratum.Assign
