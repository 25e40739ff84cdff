import Mathlib.Algebra.Order.Ring.Rat
import Mathlib.Data.List.Sort
import YiimpStratum.Assign.Nonces

/-!
# The loop of `job_update`

`job_assign_clients` goes over the list of clients in up to four passes, each
of which stops when the job takes no more clients, and `job_update` does this
for the jobs in the order of their profits until no client is free.

Everything that the assignment of one client can do is in `Takes`.  From it
follow for a pass what the totals of the job count, and that other jobs keep
their clients.
-/

namespace YiimpStratum.Assign

/-! ## Passes -/

section Definitions

variable (config : Config) (jobid : Nat) (maxhash : Rat)

/-- One loop of `job_assign_clients` over the clients that are `chosen`. -/
def assignPass (chosen : YaampClient → Bool) :
    YaampJob → List YaampClient → YaampJob × List YaampClient
  | job, [] => (job, [])
  | job, client :: clients =>
      if chosen client then
        let assigned := jobAssignClient config jobid job client maxhash
        if assigned.1 then
          let rest := assignPass chosen assigned.2.1 clients
          (rest.1, assigned.2.2 :: rest.2)
        else (assigned.2.1, assigned.2.2 :: clients)
      else
        let rest := assignPass chosen job clients
        (rest.1, client :: rest.2)

/-- The clients that are not locked to another job. -/
def lockedHere (client : YaampClient) : Bool :=
  client.jobidLocked == 0 || client.jobidLocked == jobid

/-- `job_assign_clients` -/
def jobAssignClients (job : YaampJob) (clients : List YaampClient) :
    YaampJob × List YaampClient :=
  let pass0 :=
    assignPass config jobid maxhash (lockedHere jobid)
      { job with speed := 0, count := 0 } clients
  let pass1 :=
    assignPass config jobid maxhash (fun client => client.jobidSent == jobid)
      pass0.1 pass0.2
  let pass2 :=
    if job.isRemote then
      assignPass config jobid maxhash YaampClient.extranonceSubscribe
        pass1.1 pass1.2
    else pass1
  assignPass config jobid maxhash (fun _ => true) pass2.1 pass2.2

/-- `job_reset_clients`; zero stands for all jobs. -/
def jobResetClients (clients : List YaampClient) : List YaampClient :=
  clients.map fun client =>
    if client.deleted = false ∧ (jobid = 0 ∨ jobid = client.jobidNext) then
      { client with jobidNext := 0 }
    else client

/-- `job_unlock_clients`; zero stands for all jobs. -/
def jobUnlockClients (clients : List YaampClient) : List YaampClient :=
  clients.map fun client =>
    if client.deleted = false ∧ client.jobidLocked ≠ 0 ∧
        client.jobidLocked ≠ client.jobidNext ∧
          (jobid = 0 ∨ client.jobidLocked = jobid) then
      { client with jobidLocked := 0 }
    else client

/-- `job_has_free_client` -/
def jobHasFreeClient (clients : List YaampClient) : Bool :=
  clients.any fun client => !client.deleted && client.jobidNext == 0

/-- A job of `g_list_job`, with the outcome of `job_can_mine`. -/
structure ListedJob where
  id : Nat
  job : YaampJob
  maxspeed : Rat
  profit : Rat
  canMine : Bool

/-- The loop over `g_list_job` in `job_update`. -/
def jobLoop : List ListedJob → List YaampClient →
    List ListedJob × List YaampClient
  | [], clients => ([], clients)
  | listed :: jobs, clients =>
      if listed.canMine then
        let assigned :=
          jobAssignClients config listed.id listed.maxspeed listed.job clients
        let visited := { listed with job := assigned.1 }
        let unlocked := jobUnlockClients listed.id assigned.2
        if jobHasFreeClient unlocked then
          let rest := jobLoop jobs unlocked
          (visited :: rest.1, rest.2)
        else (visited :: jobs, unlocked)
      else
        let rest := jobLoop jobs clients
        (listed :: rest.1, rest.2)

/-- `job_sort`: the most profitable jobs first, in their order otherwise. -/
def jobSort (jobs : List ListedJob) : List ListedJob :=
  jobs.insertionSort fun first second => second.profit ≤ first.profit

/-- `job_update` up to the end of its loop over the jobs. -/
def jobUpdateJobs (jobs : List ListedJob) (clients : List YaampClient) :
    List ListedJob × List YaampClient :=
  let looped := jobLoop config (jobSort jobs) (jobResetClients 0 clients)
  (looped.1, jobUnlockClients 0 looped.2)

end Definitions

/-! ## What one assignment can do -/

/-- The client gets the job, which had room for it. -/
structure Takes (jobid : Nat) (maxhash : Rat) (job : YaampJob)
    (client : YaampClient) (given : YaampJob) (taken : YaampClient) :
    Prop where
  alive : client.deleted = false
  free : client.jobidNext = 0
  deleted : taken.deleted = false
  next : taken.jobidNext = jobid
  speed : taken.speed = client.speed
  source : given.source = job.source
  total : given.speed = job.speed + client.speed
  count : given.count = job.count + 1
  fits : 0 < maxhash → job.speed + client.speed ≤ maxhash
  room : ∀ remote, job.source = .remote remote →
    job.count < 200 ∧ (remote.nonce2size = 2 → job.count = 0)

theorem announceNonce_speed (client : YaampClient) :
    (announceNonce client).speed = client.speed := by
  rw [announceNonce]
  split
  · rfl
  · split
    · rfl
    · rfl

/-- What the ways of giving a nonce leave as it was. -/
theorem Gives.leaves {config : Config} {jobid : Nat} {job given : YaampJob}
    {client taken : YaampClient}
    (gives : Gives config jobid job client given taken) :
    taken.speed = client.speed ∧ given.source = job.source ∧
      given.speed = job.speed ∧ given.count = job.count := by
  cases gives with
  | coin id source => exact ⟨rfl, rfl, rfl, rfl⟩
  | single remote source size unused => exact ⟨rfl, rfl, rfl, rfl⟩
  | kept remote source size sent => exact ⟨rfl, rfl, rfl, rfl⟩
  | reserved remote subid source size unsent free =>
      exact ⟨rfl, rfl, rfl, rfl⟩

/-- A remote with two bytes of nonce has one client. -/
theorem Gives.unused {config : Config} {jobid : Nat} {job given : YaampJob}
    {client taken : YaampClient} {remote : YaampRemote}
    (gives : Gives config jobid job client given taken)
    (source : job.source = .remote remote) (size : remote.nonce2size = 2) :
    job.count = 0 := by
  cases gives with
  | coin id ofCoin =>
      rw [source] at ofCoin
      exact Source.noConfusion ofCoin
  | single other same narrow unused => exact unused
  | kept other same wide sent =>
      rw [source] at same
      exact absurd size ((Source.remote.inj same) ▸ wide)
  | reserved other subid same wide unsent free =>
      rw [source] at same
      exact absurd size ((Source.remote.inj same) ▸ wide)

theorem count_lt_of_remoteSkipped {config : Config} {remote : YaampRemote}
    {job : YaampJob} {client : YaampClient}
    (goes : remoteSkipped config remote job client = none) :
    job.count < 200 := by
  rw [remoteSkipped] at goes
  split at goes
  · exact absurd goes (by simp)
  · split at goes
    · exact absurd goes (by simp)
    · split at goes
      · exact absurd goes (by simp)
      · omega

/-- The conditions that hold when the first early returns are not taken. -/
theorem of_skipped {config : Config} {jobid : Nat} {job : YaampJob}
    {client : YaampClient} {maxhash : Rat}
    (goes : skipped config jobid job client maxhash = false) :
    client.deleted = false ∧ client.jobidNext = 0 ∧
      (0 < maxhash → job.speed + client.speed ≤ maxhash) := by
  rw [skipped] at goes
  simp only [Bool.or_eq_false_iff, Bool.and_eq_false_iff,
    decide_eq_false_iff_not, bne_eq_false_iff_eq] at goes
  obtain ⟨⟨⟨⟨⟨alive, free⟩, -⟩, -⟩, fits⟩, -⟩ := goes
  refine ⟨alive, free, fun positive => ?_⟩
  rcases fits with negative | small
  · exact absurd positive negative
  · exact not_lt.mp small

/-- A client is passed over, or it takes the job. -/
theorem jobAssignClient_takes (config : Config) (jobid : Nat) (job : YaampJob)
    (client : YaampClient) (maxhash : Rat) :
    (jobAssignClient config jobid job client maxhash).2 = (job, client) ∨
      Takes jobid maxhash job client
        (jobAssignClient config jobid job client maxhash).2.1
        (jobAssignClient config jobid job client maxhash).2.2 := by
  rcases jobAssignClient_cases config jobid job client maxhash with
    same | ⟨goes, remoteGoes, given, taken, gives, same⟩
  · exact Or.inl same
  · refine Or.inr ?_
    rw [same]
    obtain ⟨alive, free, fits⟩ := of_skipped goes
    obtain ⟨-, -, sameDeleted, -⟩ := gives.keeps
    obtain ⟨sameSpeed, source, total, count⟩ := gives.leaves
    obtain ⟨next, deleted, -, -⟩ :=
      announceNonce_cases { taken with jobidNext := jobid }
    exact
      { alive := alive
        free := free
        deleted := (deleted.trans sameDeleted).trans alive
        next := next
        speed := (announceNonce_speed _).trans sameSpeed
        source := source
        total := by rw [finishAssign, total, sameSpeed]
        count := by rw [finishAssign, count]
        fits := fits
        room := fun remote isRemote =>
          ⟨count_lt_of_remoteSkipped (remoteGoes remote isRemote),
            gives.unused isRemote⟩ }

end YiimpStratum.Assign
