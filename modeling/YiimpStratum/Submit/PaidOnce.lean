import YiimpStratum.Submit.Encoding

/-!
# Work that is paid once

The work of a credited submission is its header, as the bytes of `header_bin`.
The duplicate check compares job numbers instead of header fields, so it only
tells submissions to one job apart.

A run pays no work twice exactly when no submission that passes the checks has
the header bytes of a share that was credited under another job, or to a
client whose nonce prefix has another length.
-/

namespace YiimpStratum.Submit

open YiimpStratum
open YiimpStratum.Util
open YiimpStratum.Template
open YiimpStratum.Equihash

/-! ## Credited work -/

/-- The header bytes of the credited submissions, in order. -/
def creditedWork (history : History) :
    List (Vector UInt8 equiHeaderSize) :=
  history.records.filterMap fun record => record.work

/--
The submission passes the checks, and an earlier share under another job or
for a nonce prefix of another length has its header bytes.
-/
def RepeatsWork
    (env : Environment) (history : History) (client : YaampClient)
    (now : Int) (request : SubmitRequest) : Prop :=
  ∃ job, creditedJob env history.server client now request = some job ∧
    ∃ record ∈ history.records,
      record.work =
          some (submitvalues env job.templ client request).headerBin ∧
        (record.recorded ≠ some (job.id, true) ∨
          record.nonce1.length ≠ client.extranonce1.text.length)

/-- The event is no submission that repeats credited work in this way. -/
def SubmitsFreshWork (env : Environment) (history : History) :
    Event → Prop
  | .submit client now params =>
      ∀ request, submitRequest? params = some request →
        ¬ RepeatsWork env history client now request
  | _ => True

/-! ## The invariant -/

/--
Beside the relation of shares and records: a credited record has canonical
strings, and its work is the header under the template of its job.
-/
structure WorkInvariant (env : Environment) (history : History) : Prop where
  shares : ShareInvariant history
  created : JobsCreated env history
  unique :
    ∀ job ∈ history.server.jobs, ∀ other ∈ history.server.jobs,
      job.id = other.id → job.templ = other.templ
  credited :
    ∀ record ∈ history.records, ∀ work, record.work = some work →
      CanonicalKey record.nonce1 record.ntime record.nonce ∧
        ∀ job ∈ history.server.jobs,
          record.recorded = some (job.id, true) →
            work =
              binlifyHeader
                (headerOf env.sha256Double job.templ record.nonce1
                  record.ntime record.nonce record.equiSolution)

namespace WorkInvariant

variable {env : Environment} {history : History}

theorem initial : WorkInvariant env History.initial where
  shares := ShareInvariant.initial
  created := JobsCreated.initial
  unique := by simp [History.initial, Server.initial]
  credited := by simp [History.initial]

/-- Passing to a list whose jobs were listed before keeps the invariant. -/
theorem withJobs
    (holds : WorkInvariant env history) {jobs : List YaampJob}
    (subset : KeptFrom history.server.jobs jobs) :
    WorkInvariant env
      { history with server := { history.server with jobs := jobs } } where
  shares := holds.shares.withJobs subset
  created := holds.created.withJobs subset
  unique := by
    intro job listed other otherListed same
    obtain ⟨old, oldListed, sameId, sameTempl⟩ := subset job listed
    obtain ⟨otherOld, otherOldListed, otherId, otherTempl⟩ :=
      subset other otherListed
    rw [← sameTempl, ← otherTempl]
    exact holds.unique old oldListed otherOld otherOldListed
      (by rw [sameId, otherId, same])
  credited := by
    intro record listed work credited
    obtain ⟨canonical, header⟩ :=
      holds.credited record listed work credited
    refine ⟨canonical, ?_⟩
    intro job jobListed recorded
    obtain ⟨old, oldListed, sameId, sameTempl⟩ := subset job jobListed
    rw [← sameTempl]
    rw [← sameId] at recorded
    exact header old oldListed recorded

theorem createJob
    (holds : WorkInvariant env history) (coind : YaampCoind) (force : Bool)
    (now : Int) (gbt : GetBlockTemplate) :
    WorkInvariant env
      (historyStep env history (.createJob coind force now gbt)) := by
  have shares :
      ShareInvariant
        (historyStep env history (.createJob coind force now gbt)) :=
    holds.shares.createJob coind force now gbt
  have made :
      JobsCreated env
        (historyStep env history (.createJob coind force now gbt)) :=
    JobsCreated.step history _ holds.created
  simp only [historyStep] at shares made ⊢
  rcases coindCreateJob_cases env history.server coind force now gbt with
    unchanged | ⟨templ, kept, -, keptFrom, changed⟩
  · rw [unchanged]
    exact holds
  · have old := withJobs holds keptFrom
    rw [changed] at shares made ⊢
    refine ⟨shares, made, ?_, ?_⟩
    · intro job listed other otherListed same
      rcases List.mem_append.mp listed with before | new
      · rcases List.mem_append.mp otherListed with otherBefore | otherNew
        · exact old.unique job before other otherBefore same
        · have bound := (old.shares.jobIds job before).2
          rw [List.mem_singleton.mp otherNew] at same
          simp only at same bound
          omega
      · rcases List.mem_append.mp otherListed with otherBefore | otherNew
        · have bound := (old.shares.jobIds other otherBefore).2
          rw [List.mem_singleton.mp new] at same
          simp only at same bound
          omega
        · rw [List.mem_singleton.mp new, List.mem_singleton.mp otherNew]
    · intro record listed work credited
      obtain ⟨canonical, header⟩ :=
        old.credited record listed work credited
      refine ⟨canonical, ?_⟩
      intro job jobListed recorded
      rcases List.mem_append.mp jobListed with before | new
      · exact header job before recorded
      · rw [List.mem_singleton.mp new] at recorded
        have bound :=
          holds.shares.recordIds record listed _ true recorded
        simp only at bound
        omega

/-- A submission keeps the invariant. -/
theorem submitted
    (holds : WorkInvariant env history) (client : YaampClient) (now : Int)
    (request : SubmitRequest) :
    WorkInvariant env (submitStep env history client now request) := by
  refine
    ⟨holds.shares.submitted client now request, ?_, ?_, ?_⟩
  · rw [JobsCreated, submitStep_jobs]
    exact holds.created
  · rw [submitStep_jobs]
    exact holds.unique
  · rw [submitStep_jobs]
    intro record listed work credited
    cases found : creditedJob env history.server client now request with
    | none =>
        rcases List.mem_append.mp listed with before | new
        · exact holds.credited record before work credited
        · rw [List.mem_singleton.mp new, found] at credited
          exact absurd credited (by simp)
    | some job =>
        obtain ⟨jobFound, live, passed⟩ := creditedJob_eq_some found
        obtain ⟨jobListed, -⟩ := jobFind_eq_some jobFound
        rw [submitStep_of_live jobFound live] at listed
        rcases List.mem_append.mp listed with before | new
        · exact holds.credited record before work credited
        · rw [List.mem_singleton.mp new] at credited ⊢
          simp only [liveRecord, passed, Option.isNone_none, if_true,
            Option.some_inj] at credited ⊢
          refine
            ⟨canonicalKey_of_passed (holds.created.aligned jobListed) passed,
              ?_⟩
          intro other otherListed recorded
          rw [← holds.unique job jobListed other otherListed
            (congrArg Prod.fst recorded), ← credited]
          rfl

/-- Every event keeps the invariant. -/
theorem step (history : History) (event : Event)
    (holds : WorkInvariant env history) :
    WorkInvariant env (historyStep env history event) := by
  cases event with
  | createJob coind force now gbt =>
      exact createJob holds coind force now gbt
  | deleteJob id =>
      exact withJobs holds (keptFrom_jobDelete history.server.jobs id)
  | pruneJobs =>
      exact withJobs holds (keptFrom_pruneJobs history.server.jobs)
  | sharePrune =>
      exact
        { holds with
          shares := ShareInvariant.step history .sharePrune holds.shares }
  | pruneShares =>
      exact
        { holds with
          shares := ShareInvariant.step history .pruneShares holds.shares }
  | submit client now params =>
      rw [historyStep]
      cases submitRequest? params with
      | none =>
          exact holds
      | some request =>
          exact submitted holds client now request

end WorkInvariant

/-! ## Exactness -/

section Exactness

variable {env : Environment} {history : History}

theorem creditedWork_submitStep
    (client : YaampClient) (now : Int) (request : SubmitRequest) :
    creditedWork (submitStep env history client now request) =
      creditedWork history ++
        ((creditedJob env history.server client now request).map fun job =>
          (submitvalues env job.templ client request).headerBin).toList := by
  rw [creditedWork, submitStep, List.filterMap_append, creditedWork]
  cases creditedJob env history.server client now request with
  | none =>
      rfl
  | some job =>
      rfl

/-- Only submissions add work. -/
theorem creditedWork_historyStep
    (env : Environment) (history : History) (event : Event) :
    ∃ added,
      creditedWork (historyStep env history event) =
        creditedWork history ++ added := by
  cases event with
  | submit client now params =>
      rw [historyStep]
      cases submitRequest? params with
      | none =>
          exact ⟨[], (List.append_nil _).symm⟩
      | some request =>
          exact ⟨_, creditedWork_submitStep client now request⟩
  | _ =>
      exact ⟨[], (List.append_nil _).symm⟩

/-- Credited work is new exactly when it repeats no work of another job. -/
theorem credited_fresh_iff
    (holds : WorkInvariant env history) {client : YaampClient} {now : Int}
    {request : SubmitRequest} {job : YaampJob}
    (credited :
      creditedJob env history.server client now request = some job) :
    (submitvalues env job.templ client request).headerBin ∉
        creditedWork history ↔
      ¬ RepeatsWork env history client now request := by
  obtain ⟨found, -, passed⟩ := creditedJob_eq_some credited
  obtain ⟨listed, sameId⟩ := jobFind_eq_some found
  have aligned := holds.created.aligned listed
  have key := canonicalKey_of_passed aligned passed
  rw [not_iff_not, creditedWork, List.mem_filterMap]
  constructor
  · rintro ⟨record, recordListed, work⟩
    refine ⟨job, credited, record, recordListed, work, ?_⟩
    by_contra sameJob
    push Not at sameJob
    obtain ⟨recorded, lengths⟩ := sameJob
    obtain ⟨otherKey, header⟩ :=
      holds.credited record recordListed _ work
    have same := header job listed recorded
    obtain ⟨ntime, nonce, nonce1⟩ :=
      key_eq_of_binlifyHeader_eq env.sha256Double aligned key otherKey
        lengths same.symm
    -- The duplicate check would have found the share of that record.
    have duplicate := (rejection_eq_none_iff.mp passed).2.2.1
    rw [isDuplicate, ← Bool.not_eq_true, shareFind_isSome_iff,
      holds.shares.live job listed] at duplicate
    exact duplicate
      ⟨record, recordListed, ⟨true, recorded⟩, ntime, nonce, nonce1⟩
  · rintro ⟨other, otherCredited, record, recordListed, work, -⟩
    have same := Option.some.inj (otherCredited.symm.trans credited)
    rw [same] at work
    exact ⟨record, recordListed, work⟩

/-- A step from distinct work keeps it distinct exactly when it is fresh. -/
theorem nodup_historyStep_iff
    (holds : WorkInvariant env history)
    (distinct : (creditedWork history).Nodup) (event : Event) :
    (creditedWork (historyStep env history event)).Nodup ↔
      SubmitsFreshWork env history event := by
  cases event with
  | submit client now params =>
      rw [historyStep, SubmitsFreshWork]
      cases submitRequest? params with
      | none =>
          simpa using distinct
      | some request =>
          simp only [Option.some_inj, forall_eq']
          rw [creditedWork_submitStep]
          cases credited :
              creditedJob env history.server client now request with
          | none =>
              simp [distinct, RepeatsWork, credited]
          | some job =>
              rw [← credited_fresh_iff holds credited]
              simp only [Option.map_some, Option.toList_some]
              rw [List.nodup_append', List.disjoint_singleton]
              simp [distinct]
  | _ =>
      exact iff_of_true distinct trivial

end Exactness

/--
In every run, no two credited submissions have the same header bytes exactly
when no step repeats the work of another job, or of a nonce prefix of another
length.
-/
theorem work_paid_once_iff (env : Environment) (events : List Event) :
    (creditedWork (historyAfter env events)).Nodup ↔
      Run.EveryStep (historyStep env) (SubmitsFreshWork env)
        History.initial events := by
  refine
    Run.safe_after_iff_everyStep
      (fun history => (creditedWork history).Nodup)
      WorkInvariant.step ?_ ?_ WorkInvariant.initial List.nodup_nil events
  · intro history event repeated
    obtain ⟨added, extended⟩ := creditedWork_historyStep env history event
    rw [extended]
    exact fun distinct => repeated (List.Nodup.of_append_left distinct)
  · intro history event holds distinct
    exact nodup_historyStep_iff holds distinct event

/-! ## One template in two jobs -/

section Sample

/-- A canonical solution, of 512 zero indices. -/
def sampleSolution : CString :=
  sampleRequest.equiSolutionParam

/-- The server after a forced creation repeated the template of its job. -/
def sampleServerForced (shares : List YaampShare) : Server where
  jobs := [(sampleJob 1).delete, sampleJob 2]
  shares := shares
  nextJobId := 2
  coindJob := Function.update sampleServer.coindJob 1 (some 2)

theorem historyStep_sampleCreation_forced
    (shares : List YaampShare) (records : List Record) :
    historyStep sampleEnvironment
        { server := { sampleServer with shares := shares }
          records := records }
        sampleCreation =
      { server := sampleServerForced shares, records := records } := by
  simp only [sampleCreation, historyStep, coindCreateJob, sampleEnvironment,
    sampleTempl_created]
  rfl

theorem decodedSolution_sampleSolution (jobid : CString) :
    decodedSolution (sampleSubmission jobid sampleSolution) =
      zeroSolution := by
  apply decodedSolution_hexlify
  rw [zeroSolution, Vector.toList_replicate]
  rfl

/-- The header bytes of the sample submission, to either job. -/
def sampleWork : Vector UInt8 equiHeaderSize :=
  (submitvalues sampleEnvironment (sampleTempl []) sampleClient
    (sampleSubmission [] sampleSolution)).headerBin

/-- One submission to the first job, and the same one to its copy. -/
def submittedTwice : List Event :=
  [sampleCreation, .submit sampleClient 0 (sampleParams ['1'] sampleSolution),
    sampleCreation, .submit sampleClient 0 (sampleParams ['2'] sampleSolution)]

/-- A submission to a listed sample job adds the sample work. -/
theorem creditedWork_sampleSubmission
    {history : History} {job : YaampJob} {jobid : CString}
    (found : jobFind history.server.jobs (htoi jobid) = some job)
    (templ : job.templ = sampleTempl []) (live : job.deleted = false)
    (fresh :
      isDuplicate history.server job sampleClient
          (sampleSubmission jobid sampleSolution) =
        false)
    (short : ¬ 32 < jobid.length) :
    creditedWork
        (historyStep sampleEnvironment history
          (.submit sampleClient 0 (sampleParams jobid sampleSolution))) =
      creditedWork history ++ [sampleWork] := by
  have parsed :
      submitRequest? (sampleParams jobid sampleSolution) =
        some (sampleSubmission jobid sampleSolution) := by
    rw [sampleParams, submitRequest?, if_neg short]
    rfl
  have passed :=
    rejection_sampleSubmission templ fresh
      (decodedSolution_sampleSolution jobid)
  have credited :
      creditedJob sampleEnvironment history.server sampleClient 0
          (sampleSubmission jobid sampleSolution) =
        some job := by
    have sameJob :
        jobFind history.server.jobs
            (htoi (sampleSubmission jobid sampleSolution).jobidParam) =
          some job :=
      found
    rw [creditedJob, sameJob, Option.filter_some, passed, live]
    rfl
  rw [historyStep, parsed]
  simp only
  rw [creditedWork_submitStep, credited, Option.map_some, templ]
  rfl

/-- The history after the first submission. -/
def submittedFirst : History where
  server :=
    recordShare sampleServer 1 sampleClient
      (sampleSubmission ['1'] sampleSolution)
  records :=
    [liveRecord sampleEnvironment sampleServer (sampleJob 1) sampleClient 0
      (sampleSubmission ['1'] sampleSolution)]

theorem historyStep_submittedFirst :
    historyStep sampleEnvironment
        { server := sampleServer, records := [] }
        (.submit sampleClient 0 (sampleParams ['1'] sampleSolution)) =
      submittedFirst :=
  submitStep_of_live (by rfl) (sampleJob_live 1)

theorem creditedWork_submittedFirst :
    creditedWork submittedFirst = [sampleWork] := by
  rw [← historyStep_submittedFirst]
  exact
    creditedWork_sampleSubmission (by rfl) (sampleJob_templ 1)
      (sampleJob_live 1) rfl (by decide)

/--
The same header is credited under a job and, after a forced creation with the
same template, under the next job.
-/
theorem work_paid_twice_at_submittedTwice :
    ¬ (creditedWork
        (historyAfter sampleEnvironment submittedTwice)).Nodup := by
  have copied :
      historyStep sampleEnvironment submittedFirst sampleCreation =
        { server := sampleServerForced submittedFirst.server.shares
          records := submittedFirst.records } :=
    historyStep_sampleCreation_forced _ _
  have found :
      jobFind (sampleServerForced submittedFirst.server.shares).jobs
          (htoi ['2']) =
        some (sampleJob 2) := by
    rfl
  have work :
      creditedWork (historyAfter sampleEnvironment submittedTwice) =
        [sampleWork, sampleWork] := by
    simp only [historyAfter, submittedTwice, Run.after_cons, Run.after_nil]
    rw [historyStep_sampleCreation, historyStep_submittedFirst, copied,
      creditedWork_sampleSubmission found (sampleJob_templ 2)
        (sampleJob_live 2) rfl (by decide)]
    exact congrArg (fun works => works ++ [sampleWork])
      creditedWork_submittedFirst
  rw [work]
  simp

end Sample

end YiimpStratum.Submit
