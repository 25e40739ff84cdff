import YiimpStratum.Assign.Capacity

/-!
# The overflow fallback

The whole of `job_update`: the loop over the jobs, the coins that take the
clients left, and the fallback for a client that is still free.  The fallback
takes the clients away from the job of the first coin, or from all jobs when
this coin has none, creates a new job for the coin, and assigns the clients
that it can.

The coins come in the order that `coind_sort` gives them.  A coin points to a
job of `g_list_job` or to none, and what `coind_create_job` comes to is an
input.  The broadcast at the end sends jobs and assigns none.
-/

namespace YiimpStratum.Assign

/-! ## Coins -/

/-- `YAAMP_COIND`, with the outcome of `coind_can_mine` and `coind_nethash`. -/
structure Coind where
  id : Nat
  canMine : Bool
  nethash : Rat
  /-- the number of `coind->job` -/
  job : Option Nat

/-- `g_list_job` and `g_list_client`. -/
structure Lists where
  jobs : List ListedJob
  clients : List YaampClient

/-- The job of a coin, when it has one. -/
def Lists.coindJob (lists : Lists) (coind : Coind) : Option ListedJob :=
  coind.job.bind fun jobid =>
    lists.jobs.find? fun listed => listed.id == jobid && !listed.job.isRemote

/-- The totals of a job after a pass. -/
def Lists.store (lists : Lists) (jobid : Nat) (job : YaampJob)
    (clients : List YaampClient) : Lists where
  jobs :=
    lists.jobs.map fun listed =>
      if listed.id = jobid then { listed with job := job } else listed
  clients := clients

section Definitions

variable (config : Config)

/-- The loop over the clients in `job_assign_clients_left`. -/
def assignLeft (factor : Rat) (coind : Coind) (listed : ListedJob)
    (clients : List YaampClient) : YaampJob × List YaampClient :=
  if config.autoexchange then
    assignPass config listed.id (coind.nethash * factor)
      (fun _ => decide (0 < factor)) listed.job clients
  else
    assignPass config listed.id (coind.nethash * 100)
      (fun client => client.coinid == coind.id) listed.job clients

/-- `job_assign_clients_left` -/
def jobAssignClientsLeft (factor : Rat) : List Coind → Lists → Lists
  | [], lists => lists
  | coind :: coins, lists =>
      if jobHasFreeClient lists.clients then
        if coind.canMine then
          match lists.coindJob coind with
          | none => jobAssignClientsLeft factor coins lists
          | some listed =>
              let assigned :=
                assignLeft config factor coind listed lists.clients
              jobAssignClientsLeft factor coins
                (lists.store listed.id assigned.1 assigned.2)
        else jobAssignClientsLeft factor coins lists
      else lists

/-- The phases of `job_update` before the fallback. -/
def jobUpdatePhases (coins : List Coind) (lists : Lists) : Lists :=
  let looped := jobUpdateJobs config lists.jobs lists.clients
  let first :=
    jobAssignClientsLeft config 1 coins
      { jobs := looped.1, clients := looped.2 }
  let second := jobAssignClientsLeft config 1 coins first
  jobAssignClientsLeft config (-1) coins second

/-- A job that `coind_create_job` makes. -/
structure NewJob where
  id : Nat
  number : id ≠ 0
  maxspeed : Rat
  profit : Rat

/-- The job of the coin after `coind_create_job`; `none` when it fails. -/
def createdJob (lists : Lists) (coind : Coind) (outcome : Option NewJob) :
    Option (Nat × YaampJob) :=
  match outcome with
  | some created => some (created.id, YaampJob.create (.coind coind.id))
  | none => (lists.coindJob coind).map fun listed => (listed.id, listed.job)

/-- The number for `job_reset_clients` with the job of the coin. -/
def resetNumber (lists : Lists) (coind : Coind) : Nat :=
  ((lists.coindJob coind).map ListedJob.id).getD 0

/-- The fallback of `job_update`, as far as the clients are concerned. -/
def overflowFallback (coins : List Coind) (outcome : Option NewJob)
    (lists : Lists) : List YaampClient :=
  if jobHasFreeClient lists.clients then
    match coins with
    | [] => lists.clients
    | coind :: _ =>
        let cleared :=
          jobResetClients (resetNumber lists coind) lists.clients
        match createdJob lists coind outcome with
        | none => cleared
        | some (jobid, job) =>
            (jobAssignClients config jobid (-1) job cleared).2
  else lists.clients

/-- `job_update` -/
def jobUpdate (coins : List Coind) (outcome : Option NewJob) (lists : Lists) :
    List YaampClient :=
  overflowFallback config coins outcome (jobUpdatePhases config coins lists)

end Definitions

/-! ## Keeping work -/

/-- A client that is not deleted and has work still has work. -/
def StillWorks (before after : YaampClient) : Prop :=
  before.deleted = false → before.jobidNext ≠ 0 → after.jobidNext ≠ 0

/-- The fallback takes work from no client. -/
def KeepsWork (config : Config) (coins : List Coind) (outcome : Option NewJob)
    (lists : Lists) : Prop :=
  List.Forall₂ StillWorks (jobUpdatePhases config coins lists).clients
    (jobUpdate config coins outcome lists)

/-- `job_reset_clients` with this number takes the work of the client. -/
def IsReset (jobid : Nat) (client : YaampClient) : Prop :=
  client.deleted = false ∧ client.jobidNext ≠ 0 ∧
    (jobid = 0 ∨ jobid = client.jobidNext)

/-- The client is not locked to another job and has not had this one. -/
def MayHave (jobid : Nat) (client : YaampClient) : Prop :=
  (client.jobidLocked = 0 ∨ client.jobidLocked = jobid) ∧
    client.findJobHistory jobid 1 = false

/--
The fallback is not taken, or every client whose work it takes may have the job
that the coin has afterwards.
-/
def FallbackHarmless (coins : List Coind) (outcome : Option NewJob)
    (lists : Lists) : Prop :=
  jobHasFreeClient lists.clients = false ∨
    ∀ coind ∈ coins.head?, ∀ client ∈ lists.clients,
      IsReset (resetNumber lists coind) client →
        ∃ jobid job, createdJob lists coind outcome = some (jobid, job) ∧
          MayHave jobid client

/-! ## Assigning without a limit -/

/-- The client is free and may have the job. -/
def Eligible (jobid : Nat) (client : YaampClient) : Prop :=
  client.deleted = false ∧ client.jobidNext = 0 ∧ MayHave jobid client

theorem skipped_eq_false_iff (config : Config) (jobid : Nat) (job : YaampJob)
    (client : YaampClient) :
    skipped config jobid job client (-1) = false ↔ Eligible jobid client := by
  have negative : ¬ (0 : Rat) < -1 := by norm_num
  have below : ¬ (0 : Rat) ≤ -1 := by norm_num
  rw [skipped, Eligible, MayHave]
  simp only [Bool.or_eq_false_iff, Bool.and_eq_false_iff,
    decide_eq_false_iff_not, bne_eq_false_iff_eq, negative, below,
    not_false_eq_true, true_or, or_true, and_true, and_assoc]

/-- A job of a coin is given exactly to the clients that may have it. -/
theorem jobAssignClient_coin (config : Config) (jobid : Nat) {job : YaampJob}
    (ofCoin : job.isRemote = false) (client : YaampClient) :
    (jobAssignClient config jobid job client (-1)).1 = true ∧
      (Eligible jobid client →
        (jobAssignClient config jobid job client (-1)).2.2.jobidNext =
          jobid) ∧
      (¬ Eligible jobid client →
        (jobAssignClient config jobid job client (-1)).2.2 = client) := by
  rw [← skipped_eq_false_iff config jobid job client, jobAssignClient]
  split
  · rename_i skips
    refine ⟨rfl, fun goes => ?_, fun _ => rfl⟩
    rw [skips] at goes
    exact Bool.noConfusion goes
  · rename_i goes
    rw [Bool.not_eq_true] at goes
    split
    · rename_i remote source
      rw [YaampJob.isRemote, source] at ofCoin
      exact Bool.noConfusion ofCoin
    · refine ⟨rfl, fun _ => ?_, fun skips => absurd goes skips⟩
      exact (announceNonce_cases _).1

/-- What a pass may do to a client. -/
def MayTake (jobid : Nat) (before after : YaampClient) : Prop :=
  after = before ∨ Eligible jobid before ∧ after.jobidNext = jobid

/-- What the pass over all clients does to a client. -/
def MustTake (jobid : Nat) (before after : YaampClient) : Prop :=
  (Eligible jobid before → after.jobidNext = jobid) ∧
    (¬ Eligible jobid before → after = before)

theorem MustTake.mayTake {jobid : Nat} {before after : YaampClient}
    (takes : MustTake jobid before after) : MayTake jobid before after := by
  by_cases eligible : Eligible jobid before
  · exact Or.inr ⟨eligible, takes.1 eligible⟩
  · exact Or.inl (takes.2 eligible)

/-- A client that a pass took is not eligible in the later ones. -/
theorem MayTake.then_mustTake {jobid : Nat} (number : jobid ≠ 0)
    {before between after : YaampClient}
    (first : MayTake jobid before between)
    (last : MustTake jobid between after) : MustTake jobid before after := by
  rcases first with rfl | ⟨eligible, next⟩
  · exact last
  · have taken : ¬ Eligible jobid between :=
      fun again => number (next.symm.trans again.2.1)
    have same := last.2 taken
    refine ⟨fun _ => ?_, fun skips => absurd eligible skips⟩
    rw [same]
    exact next

/-- Two relations along lists compose. -/
theorem forall₂_trans {first second third : YaampClient → YaampClient → Prop}
    (compose : ∀ before between after, first before between →
      second between after → third before after)
    {befores betweens afters : List YaampClient}
    (left : List.Forall₂ first befores betweens)
    (right : List.Forall₂ second betweens afters) :
    List.Forall₂ third befores afters := by
  induction left generalizing afters with
  | nil =>
      cases right
      exact List.Forall₂.nil
  | cons one rest ih =>
      cases right with
      | cons two others =>
          exact List.Forall₂.cons (compose _ _ _ one two) (ih others)

/-- The coin of a job is kept by a pass, which takes no client twice. -/
theorem assignPass_coin (config : Config) (jobid : Nat)
    (chosen : YaampClient → Bool) {job : YaampJob}
    (ofCoin : job.isRemote = false) (clients : List YaampClient) :
    (assignPass config jobid (-1) chosen job clients).1.isRemote = false ∧
      List.Forall₂
        (fun before after =>
          MayTake jobid before after ∧
            (chosen before = true → MustTake jobid before after))
        clients (assignPass config jobid (-1) chosen job clients).2 := by
  induction clients generalizing job with
  | nil =>
      exact ⟨ofCoin, List.Forall₂.nil⟩
  | cons client clients ih =>
      rw [assignPass]
      dsimp only
      split
      · obtain ⟨goesOn, takes⟩ :=
          jobAssignClient_coin config jobid ofCoin client
        have kept : (jobAssignClient config jobid job client
            (-1)).2.1.isRemote = false := by
          rcases jobAssignClient_takes config jobid job client (-1) with
            same | taken
          · rw [same]
            exact ofCoin
          · rw [YaampJob.isRemote, taken.source]
            exact ofCoin
        rw [if_pos goesOn]
        obtain ⟨source, rest⟩ := ih kept
        have must : MustTake jobid client
            (jobAssignClient config jobid job client (-1)).2.2 := takes
        exact ⟨source, List.Forall₂.cons ⟨must.mayTake, fun _ => must⟩ rest⟩
      · rename_i skips
        obtain ⟨source, rest⟩ := ih ofCoin
        exact ⟨source, List.Forall₂.cons
          ⟨Or.inl rfl, fun goes => absurd goes skips⟩ rest⟩

/-- A job of a coin gets exactly the free clients that may have it. -/
theorem jobAssignClients_coin (config : Config) {jobid : Nat}
    (number : jobid ≠ 0) {job : YaampJob} (ofCoin : job.isRemote = false)
    (clients : List YaampClient) :
    List.Forall₂ (MustTake jobid) clients
      (jobAssignClients config jobid (-1) job clients).2 := by
  rw [jobAssignClients, if_neg (ne_true_of_eq_false ofCoin)]
  have cleared : ({ job with speed := 0, count := 0 } : YaampJob).isRemote =
      false := ofCoin
  obtain ⟨locked, first⟩ :=
    assignPass_coin config jobid (lockedHere jobid) cleared clients
  obtain ⟨sent, second⟩ := assignPass_coin config jobid
    (fun client => client.jobidSent == jobid) locked
    (assignPass config jobid (-1) (lockedHere jobid)
      { job with speed := 0, count := 0 } clients).2
  obtain ⟨-, last⟩ := assignPass_coin config jobid (fun _ => true) sent _
  have afterSent : List.Forall₂ (MustTake jobid) _ _ :=
    forall₂_trans
      (fun _ _ _ may must => may.1.then_mustTake number (must.2 rfl))
      second last
  exact forall₂_trans
    (fun _ _ _ may must => may.1.then_mustTake number must) first afterSent

/-! ## The numbers of the jobs -/

theorem map_id_jobLoop (config : Config) (jobs : List ListedJob)
    (clients : List YaampClient) :
    (jobLoop config jobs clients).1.map ListedJob.id =
      jobs.map ListedJob.id := by
  induction jobs generalizing clients with
  | nil =>
      rfl
  | cons listed jobs ih =>
      rw [jobLoop]
      dsimp only
      split
      · split
        · rw [List.map_cons, ih]
          rfl
        · rfl
      · rw [List.map_cons, ih]
        rfl

theorem map_id_store (lists : Lists) (jobid : Nat) (job : YaampJob)
    (clients : List YaampClient) :
    (lists.store jobid job clients).jobs.map ListedJob.id =
      lists.jobs.map ListedJob.id := by
  rw [Lists.store, List.map_map]
  refine List.map_congr_left fun listed _ => ?_
  rw [Function.comp_apply]
  split
  · rfl
  · rfl

theorem map_id_jobAssignClientsLeft (config : Config) (factor : Rat)
    (coins : List Coind) (lists : Lists) :
    (jobAssignClientsLeft config factor coins lists).jobs.map ListedJob.id =
      lists.jobs.map ListedJob.id := by
  induction coins generalizing lists with
  | nil =>
      rfl
  | cons coind coins ih =>
      rw [jobAssignClientsLeft]
      split
      · split
        · split
          · exact ih lists
          · exact (ih _).trans (map_id_store lists _ _ _)
        · exact ih lists
      · rfl

/-- No job of the list has the number zero. -/
theorem numbers_jobUpdatePhases (config : Config) (coins : List Coind)
    {lists : Lists} (numbers : ∀ listed ∈ lists.jobs, listed.id ≠ 0) :
    ∀ listed ∈ (jobUpdatePhases config coins lists).jobs, listed.id ≠ 0 := by
  have same : (jobUpdatePhases config coins lists).jobs.map ListedJob.id =
      (jobSort lists.jobs).map ListedJob.id := by
    rw [jobUpdatePhases, map_id_jobAssignClientsLeft,
      map_id_jobAssignClientsLeft, map_id_jobAssignClientsLeft]
    exact map_id_jobLoop config _ _
  intro listed member
  have named : listed.id ∈ (jobSort lists.jobs).map ListedJob.id :=
    same ▸ List.mem_map_of_mem member
  obtain ⟨before, sorted, equal⟩ := List.mem_map.mp named
  rw [← equal]
  exact numbers before ((List.perm_insertionSort _ _).mem_iff.mp sorted)

theorem coindJob_spec {lists : Lists} {coind : Coind} {listed : ListedJob}
    (found : lists.coindJob coind = some listed) :
    listed ∈ lists.jobs ∧ listed.job.isRemote = false := by
  rw [Lists.coindJob, Option.bind_eq_some_iff] at found
  obtain ⟨jobid, -, here⟩ := found
  have holds := List.find?_some here
  rw [Bool.and_eq_true, Bool.not_eq_true'] at holds
  exact ⟨List.mem_of_find?_eq_some here, holds.2⟩

/-- The job of the coin after `coind_create_job` has a number and the coin. -/
theorem createdJob_spec {lists : Lists}
    (numbers : ∀ listed ∈ lists.jobs, listed.id ≠ 0) {coind : Coind}
    {outcome : Option NewJob} {jobid : Nat} {job : YaampJob}
    (created : createdJob lists coind outcome = some (jobid, job)) :
    jobid ≠ 0 ∧ job.isRemote = false := by
  cases outcome with
  | some new =>
      cases created
      exact ⟨new.number, rfl⟩
  | none =>
      obtain ⟨listed, found, same⟩ := Option.map_eq_some_iff.mp created
      cases same
      obtain ⟨member, ofCoin⟩ := coindJob_spec found
      exact ⟨numbers listed member, ofCoin⟩

/-! ## The fallback -/

/-- What `job_reset_clients` does to one client. -/
def resetClient (jobid : Nat) (client : YaampClient) : YaampClient :=
  if client.deleted = false ∧ (jobid = 0 ∨ jobid = client.jobidNext) then
    { client with jobidNext := 0 }
  else client

theorem stillWorks_resetClient_iff (jobid : Nat) (client : YaampClient) :
    StillWorks client (resetClient jobid client) ↔ ¬ IsReset jobid client := by
  rw [StillWorks, resetClient, IsReset]
  split
  · rename_i cleared
    constructor
    · exact fun works reset => works reset.1 reset.2.1 rfl
    · exact fun kept alive works =>
        absurd ⟨alive, works, cleared.2⟩ kept
  · rename_i left
    constructor
    · exact fun _ reset => left ⟨reset.1, reset.2.2⟩
    · exact fun _ _ works => works

/-- A client that loses its work gets work again when it may have the job. -/
theorem stillWorks_of_mustTake_iff {reset jobid : Nat} (number : jobid ≠ 0)
    {client after : YaampClient}
    (takes : MustTake jobid (resetClient reset client) after) :
    StillWorks client after ↔
      (IsReset reset client → MayHave jobid client) := by
  by_cases cleared : IsReset reset client
  · have same : resetClient reset client = { client with jobidNext := 0 } :=
      if_pos ⟨cleared.1, cleared.2.2⟩
    rw [same] at takes
    have eligible : Eligible jobid { client with jobidNext := 0 } ↔
        MayHave jobid client :=
      ⟨fun goes => goes.2.2, fun may => ⟨cleared.1, rfl, may⟩⟩
    constructor
    · intro works _
      by_contra mayNot
      have lost := takes.2 fun goes => mayNot (eligible.mp goes)
      refine works cleared.1 cleared.2.1 ?_
      rw [lost]
    · intro may _ _
      rw [takes.1 (eligible.mpr (may cleared))]
      exact number
  · refine ⟨fun _ reset => absurd reset cleared, fun _ alive works => ?_⟩
    have still := (stillWorks_resetClient_iff reset client).mpr cleared alive
      works
    have skips : ¬ Eligible jobid (resetClient reset client) :=
      fun goes => still goes.2.1
    rw [takes.2 skips]
    exact still

/-- A relation along the lists that says of each client what `good` says. -/
theorem forall₂_iff_forall_mem
    {relation works : YaampClient → YaampClient → Prop}
    {good : YaampClient → Prop}
    (same : ∀ before after, relation before after →
      (works before after ↔ good before))
    {befores afters : List YaampClient}
    (related : List.Forall₂ relation befores afters) :
    List.Forall₂ works befores afters ↔ ∀ client ∈ befores, good client := by
  induction related with
  | nil =>
      exact ⟨fun _ _ member => absurd member List.not_mem_nil,
        fun _ => List.Forall₂.nil⟩
  | cons here rest ih =>
      rw [List.forall₂_cons, List.forall_mem_cons, ih, same _ _ here]

/-- The pairs of a list and of what a map makes of it. -/
theorem forall₂_map_eq (change : YaampClient → YaampClient)
    (clients : List YaampClient) :
    List.Forall₂ (fun before after => after = change before) clients
      (clients.map change) := by
  rw [List.forall₂_map_right_iff, List.forall₂_same]
  exact fun _ _ => rfl

/-- The fallback takes work from no client exactly when it is harmless. -/
theorem forall₂_overflowFallback_iff (config : Config) (coins : List Coind)
    (outcome : Option NewJob) {lists : Lists}
    (numbers : ∀ listed ∈ lists.jobs, listed.id ≠ 0) :
    List.Forall₂ StillWorks lists.clients
        (overflowFallback config coins outcome lists) ↔
      FallbackHarmless coins outcome lists := by
  have unchanged : List.Forall₂ StillWorks lists.clients lists.clients :=
    List.forall₂_same.mpr fun _ _ _ works => works
  rw [overflowFallback.eq_def, FallbackHarmless]
  split
  · rename_i free
    rw [free]
    cases coins with
    | nil =>
        exact ⟨fun _ => Or.inr fun _ listed => absurd listed (by simp),
          fun _ => unchanged⟩
    | cons coind coins =>
        have cleared : List.Forall₂
            (fun before after =>
              after = resetClient (resetNumber lists coind) before)
            lists.clients
            (jobResetClients (resetNumber lists coind) lists.clients) :=
          forall₂_map_eq _ lists.clients
        have only : (true = false ∨ ∀ first ∈ (coind :: coins).head?,
            ∀ client ∈ lists.clients,
              IsReset (resetNumber lists first) client →
                ∃ jobid job, createdJob lists first outcome =
                    some (jobid, job) ∧ MayHave jobid client) ↔
            ∀ client ∈ lists.clients,
              IsReset (resetNumber lists coind) client →
                ∃ jobid job, createdJob lists coind outcome =
                  some (jobid, job) ∧ MayHave jobid client := by
          simp only [List.head?_cons, Option.mem_def, Option.some.injEq,
            Bool.true_eq_false, false_or, forall_eq']
        rw [only]
        dsimp only
        cases created : createdJob lists coind outcome with
        | none =>
            refine forall₂_iff_forall_mem ?_ cleared
            rintro before after rfl
            rw [stillWorks_resetClient_iff]
            refine forall_congr' fun _ => ⟨False.elim, ?_⟩
            rintro ⟨jobid, job, created, -⟩
            cases created
        | some new =>
            obtain ⟨number, ofCoin⟩ := createdJob_spec numbers created
            have taken := jobAssignClients_coin config number ofCoin
              (jobResetClients (resetNumber lists coind) lists.clients)
            have related : List.Forall₂
                (fun before after => MustTake new.1
                  (resetClient (resetNumber lists coind) before) after)
                lists.clients
                (jobAssignClients config new.1 (-1) new.2
                  (jobResetClients (resetNumber lists coind)
                    lists.clients)).2 :=
              forall₂_trans
                (fun before between after same takes => by
                  rw [same] at takes
                  exact takes)
                cleared taken
            refine forall₂_iff_forall_mem ?_ related
            intro before after takes
            rw [stillWorks_of_mustTake_iff number takes]
            refine forall_congr' fun _ => ⟨fun may => ?_, ?_⟩
            · exact ⟨new.1, new.2, rfl, may⟩
            · rintro ⟨jobid, job, same, may⟩
              cases same
              exact may
  · rename_i busy
    exact ⟨fun _ => Or.inl (Bool.not_eq_true _ ▸ busy), fun _ => unchanged⟩

/--
No client loses its work at the end of `job_update` exactly when the fallback is
not taken, or every client that it resets may have the new job.
-/
theorem keepsWork_iff (config : Config) (coins : List Coind)
    (outcome : Option NewJob) (jobs : JobList) (clients : List YaampClient) :
    KeepsWork config coins outcome { jobs := jobs.jobs, clients := clients } ↔
      FallbackHarmless coins outcome
        (jobUpdatePhases config coins
          { jobs := jobs.jobs, clients := clients }) :=
  forall₂_overflowFallback_iff config coins outcome
    (numbers_jobUpdatePhases config coins jobs.numbers)

/-! ## Work lost -/

/-- The daemon of the first coin is down; the second coin has a job. -/
def twoCoins : List Coind :=
  [{ id := 1, canMine := false, nethash := 100, job := none },
    { id := 2, canMine := true, nethash := 100, job := some 5 }]

/-- The job that the daemon of the first coin gives work for. -/
def createdOne : NewJob where
  id := 6
  number := by decide
  maxspeed := 0
  profit := 1

/-- The list with the job of the second coin. -/
def oneJob : List ListedJob :=
  [{ id := 5
     job := YaampJob.create (.coind 2)
     maxspeed := 100
     profit := 1
     canMine := true }]

def oneJobList : JobList where
  jobs := oneJob
  numbers := by decide
  distinct := by decide

/-- One client for each of the two coins. -/
def twoMiners : List YaampClient :=
  [{ YaampClient.connected with coinid := 2 },
    { YaampClient.connected with coinid := 1 }]

/--
The client of the first coin stays free, and when the creation of a job fails
the client of the second coin has lost its own.
-/
theorem not_keepsWork_twoCoins :
    ¬ KeepsWork
      { autoexchange := false, stratumReconnect := false, decred := false }
      twoCoins none { jobs := oneJob, clients := twoMiners } := by
  have before : ((jobUpdatePhases
      { autoexchange := false, stratumReconnect := false, decred := false }
      twoCoins { jobs := oneJob, clients := twoMiners }).clients.map
        fun client => (client.deleted, client.jobidNext)) =
      [(false, 5), (false, 0)] := by
    decide +kernel
  have after : ((jobUpdate
      { autoexchange := false, stratumReconnect := false, decred := false }
      twoCoins none { jobs := oneJob, clients := twoMiners }).map
        YaampClient.jobidNext) = [0, 0] := by
    decide +kernel
  intro keeps
  rw [KeepsWork] at keeps
  generalize (jobUpdatePhases _ _ _).clients = phases at keeps before
  generalize jobUpdate _ _ _ _ = updated at keeps after
  cases keeps with
  | nil =>
      cases before
  | cons works _ =>
      rw [List.map_cons, List.cons.injEq, Prod.mk.injEq] at before
      rw [List.map_cons, List.cons.injEq] at after
      refine works before.1.1 ?_ after.1
      rw [before.1.2]
      decide

/-- When the job is created, the client of the second coin works on it. -/
theorem keepsWork_createdOne :
    KeepsWork
      { autoexchange := false, stratumReconnect := false, decred := false }
      twoCoins (some createdOne)
      { jobs := oneJobList.jobs, clients := twoMiners } := by
  refine (keepsWork_iff _ twoCoins (some createdOne) oneJobList
    twoMiners).mpr (Or.inr ?_)
  have may : ∀ client ∈ (jobUpdatePhases
      { autoexchange := false, stratumReconnect := false, decred := false }
      twoCoins { jobs := oneJobList.jobs, clients := twoMiners }).clients,
      (client.jobidLocked = 0 ∨ client.jobidLocked = createdOne.id) ∧
        client.findJobHistory createdOne.id 1 = false := by
    decide +kernel
  intro coind _ client listed _
  exact ⟨createdOne.id, YaampJob.create (.coind coind.id), rfl,
    may client listed⟩

end YiimpStratum.Assign
