import YiimpStratum.Library.Run
import YiimpStratum.Submit.Layout
import YiimpStratum.Submit.SameHeader

/-!
# Runs of the server

The events that change the lists of jobs and shares, in any order: job
creation, job deletion, the pruning passes and submissions.  A history is the
state of the server together with a record of every submission so far.

The invariant relates the list of shares to the records.  For a job that is
still listed, the live shares are exactly the submissions recorded under it:
job numbers are not used twice, and `share_prune` only touches the shares of
jobs that are no longer listed.
-/

namespace YiimpStratum.Submit

open YiimpStratum
open YiimpStratum.Util
open YiimpStratum.Template
open YiimpStratum.Equihash

/-! ## Inversion of the functions on the server -/

section Inversion

variable {env : Environment} {server : Server}

/-- The cases of the handler. -/
inductive HandlerCase
    (env : Environment) (server : Server) (client : YaampClient) (now : Int)
    (request : SubmitRequest) : Server × Outcome → Prop where
  | unknown
      (missing : jobFind server.jobs (htoi request.jobidParam) = none) :
      HandlerCase env server client now request
        (recordShare server 0 client request,
          { reply := .error 21 "Invalid job id"
            recorded := some (0, false) })
  | deleted (job : YaampJob)
      (found : jobFind server.jobs (htoi request.jobidParam) = some job)
      (dead : job.deleted = true) :
      HandlerCase env server client now request
        (server, { reply := .result, recorded := none })
  | rejected (job : YaampJob) (number : Nat) (message : String)
      (found : jobFind server.jobs (htoi request.jobidParam) = some job)
      (live : job.deleted = false)
      (failed :
        rejection env server job client now request =
          some (number, message)) :
      HandlerCase env server client now request
        (recordShare server job.id client request,
          { reply := .error number message
            recorded := some (job.id, false) })
  | credited (job : YaampJob)
      (found : jobFind server.jobs (htoi request.jobidParam) = some job)
      (live : job.deleted = false)
      (passed : rejection env server job client now request = none) :
      HandlerCase env server client now request
        (recordShare server job.id client request,
          { reply := .result
            recorded := some (job.id, true) })

theorem clientSubmitEqui_cases
    (env : Environment) (server : Server) (client : YaampClient) (now : Int)
    (request : SubmitRequest) :
    HandlerCase env server client now request
      (clientSubmitEqui env server client now request) := by
  rw [clientSubmitEqui]
  cases found : jobFind server.jobs (htoi request.jobidParam) with
  | none =>
      exact .unknown found
  | some job =>
      cases live : job.deleted with
      | true =>
          simp only [live, if_true]
          exact .deleted job found live
      | false =>
          simp only [live, Bool.false_eq_true, if_false]
          cases checked : rejection env server job client now request with
          | none =>
              exact .credited job found live checked
          | some error =>
              simp only [clientSubmitError, Option.any_some, live,
                Bool.false_eq_true, if_false, Option.map_some,
                Option.getD_some]
              exact .rejected job error.1 error.2 found live checked

/-- A submission to a live job is recorded under it. -/
theorem clientSubmitEqui_of_live
    (env : Environment) (client : YaampClient) (now : Int)
    {request : SubmitRequest} {job : YaampJob}
    (found : jobFind server.jobs (htoi request.jobidParam) = some job)
    (live : job.deleted = false) :
    (clientSubmitEqui env server client now request).1 =
        recordShare server job.id client request ∧
      (clientSubmitEqui env server client now request).2.recorded =
        some
          (job.id,
            (rejection env server job client now request).isNone) := by
  have outcome := clientSubmitEqui_cases env server client now request
  generalize clientSubmitEqui env server client now request = result
    at outcome ⊢
  cases outcome with
  | unknown missing =>
      exact absurd (missing.symm.trans found) (by simp)
  | deleted other otherFound dead =>
      have same := Option.some.inj (otherFound.symm.trans found)
      rw [same, live] at dead
      exact absurd dead (by simp)
  | rejected other number message otherFound otherLive failed =>
      have same := Option.some.inj (otherFound.symm.trans found)
      rw [same] at failed ⊢
      exact ⟨rfl, by rw [failed]; rfl⟩
  | credited other otherFound otherLive passed =>
      have same := Option.some.inj (otherFound.symm.trans found)
      rw [same] at passed ⊢
      exact ⟨rfl, by rw [passed]; rfl⟩

theorem jobFind_eq_some
    {jobs : List YaampJob} {id : Nat} {job : YaampJob}
    (found : jobFind jobs id = some job) : job ∈ jobs ∧ job.id = id :=
  objectFind_eq_some found

/-- Every job was listed before, under its number and with its template. -/
def KeptFrom (before jobs : List YaampJob) : Prop :=
  ∀ job ∈ jobs, ∃ old ∈ before, old.id = job.id ∧ old.templ = job.templ

theorem keptFrom_self (jobs : List YaampJob) : KeptFrom jobs jobs :=
  fun job listed => ⟨job, listed, rfl, rfl⟩

theorem keptFrom_jobDelete (jobs : List YaampJob) (id : Nat) :
    KeptFrom jobs (jobDelete jobs id) := by
  intro job listed
  rw [jobDelete] at listed
  obtain ⟨old, oldListed, same⟩ := List.mem_map.mp listed
  refine ⟨old, oldListed, ?_⟩
  rw [← same]
  split <;> exact ⟨rfl, rfl⟩

theorem keptFrom_pruneJobs (jobs : List YaampJob) :
    KeptFrom jobs (pruneJobs jobs) := by
  intro job listed
  obtain ⟨old, oldListed, -, rfl⟩ := mem_objectPrune.mp listed
  exact ⟨old, oldListed, by simp [YaampJob.setHeader], rfl⟩

/-- What the creation of a job changes. -/
theorem coindCreateJob_cases
    (env : Environment) (server : Server) (coind : YaampCoind) (force : Bool)
    (now : Int) (gbt : GetBlockTemplate) :
    coindCreateJob env server coind force now gbt = server ∨
      ∃ templ kept,
        coindCreateTemplate env.sha256Double (env.coinbaseCreate coind)
            env.config coind now gbt =
          some templ ∧
          KeptFrom server.jobs kept ∧
            coindCreateJob env server coind force now gbt =
              { server with
                jobs :=
                  kept ++
                    [{ toYaampObject :=
                        { YaampObject.zeroed with
                          id := server.nextJobId + 1 }
                       templ := templ }]
                nextJobId := server.nextJobId + 1
                coindJob :=
                  Function.update server.coindJob coind.id
                    (some (server.nextJobId + 1)) } := by
  rw [coindCreateJob]
  cases created :
      coindCreateTemplate env.sha256Double (env.coinbaseCreate coind)
        env.config coind now gbt with
  | none =>
      exact Or.inl rfl
  | some templ =>
      simp only
      split
      · exact Or.inl rfl
      · cases server.coindJob coind.id with
        | none =>
            exact Or.inr
              ⟨templ, server.jobs, rfl, keptFrom_self server.jobs, rfl⟩
        | some last =>
            exact Or.inr
              ⟨templ, jobDelete server.jobs last, rfl,
                keptFrom_jobDelete server.jobs last, rfl⟩

end Inversion

/-! ## Histories -/

/--
A submission that reached the handler: its key and solution, the arguments
`job` and `valid` of `share_add`, and the header bytes when it was credited.
-/
structure Record where
  jobid : Nat
  nonce1 : CString
  ntime : CString
  nonce : CString
  equiSolution : CString
  recorded : Option (Nat × Bool)
  work : Option (Vector UInt8 equiHeaderSize)

structure History where
  server : Server
  records : List Record

def History.initial : History where
  server := Server.initial
  records := []

inductive Event where
  | createJob
      (coind : YaampCoind) (force : Bool) (now : Int)
      (gbt : GetBlockTemplate)
  | deleteJob (id : Nat)
  | pruneJobs
  | sharePrune
  | pruneShares
  | submit (client : YaampClient) (now : Int) (params : List CString)

section Steps

variable (env : Environment)

/-- The job under which a submission is credited. -/
def creditedJob
    (server : Server) (client : YaampClient) (now : Int)
    (request : SubmitRequest) : Option YaampJob :=
  (jobFind server.jobs (htoi request.jobidParam)).filter fun job =>
    !job.deleted && (rejection env server job client now request).isNone

def submitStep
    (history : History) (client : YaampClient) (now : Int)
    (request : SubmitRequest) : History :=
  let handled := clientSubmitEqui env history.server client now request
  { server := handled.1
    records :=
      history.records ++
        [{ jobid := htoi request.jobidParam
           nonce1 := client.extranonce1.text
           ntime := request.ntime
           nonce := request.nonce
           equiSolution := request.equiSolution
           recorded := handled.2.recorded
           work :=
            (creditedJob env history.server client now request).map
              fun job =>
                (submitvalues env job.templ client request).headerBin }] }

def historyStep (history : History) : Event → History
  | .createJob coind force now gbt =>
      { history with
        server := coindCreateJob env history.server coind force now gbt }
  | .deleteJob id =>
      { history with
        server :=
          { history.server with
            jobs := jobDelete history.server.jobs id } }
  | .pruneJobs =>
      { history with
        server :=
          { history.server with
            jobs := Submit.pruneJobs history.server.jobs } }
  | .sharePrune =>
      { history with
        server :=
          { history.server with
            shares :=
              YiimpStratum.sharePrune
                (fun id => (jobFind history.server.jobs id).isSome)
                history.server.shares } }
  | .pruneShares =>
      { history with
        server :=
          { history.server with
            shares := YiimpStratum.pruneShares history.server.shares } }
  | .submit client now params =>
      match submitRequest? params with
      | none => history
      | some request => submitStep env history client now request

/-- The record of a submission to a live job. -/
def liveRecord
    (server : Server) (job : YaampJob) (client : YaampClient) (now : Int)
    (request : SubmitRequest) : Record :=
  let passed := (rejection env server job client now request).isNone
  { jobid := htoi request.jobidParam
    nonce1 := client.extranonce1.text
    ntime := request.ntime
    nonce := request.nonce
    equiSolution := request.equiSolution
    recorded := some (job.id, passed)
    work :=
      if passed then
        some (submitvalues env job.templ client request).headerBin
      else
        none }

theorem submitStep_of_live
    {env : Environment} {history : History} {client : YaampClient}
    {now : Int} {request : SubmitRequest} {job : YaampJob}
    (found :
      jobFind history.server.jobs (htoi request.jobidParam) = some job)
    (live : job.deleted = false) :
    submitStep env history client now request =
      { server := recordShare history.server job.id client request
        records :=
          history.records ++
            [liveRecord env history.server job client now request] } := by
  obtain ⟨server, recorded⟩ :=
    clientSubmitEqui_of_live env client now found live
  rw [submitStep, server, recorded, creditedJob, found, liveRecord]
  cases checked : rejection env history.server job client now request with
  | none =>
      simp [live, checked]
  | some error =>
      simp [live, checked]

/-- The history after a list of events, from the start of the server. -/
def historyAfter (events : List Event) : History :=
  Run.after (historyStep env) History.initial events

end Steps

/-! ## The checks -/

section Checks

variable {env : Environment} {server : Server} {client : YaampClient}
variable {now : Int} {request : SubmitRequest} {job : YaampJob}

/-- What the checks establish for a credited submission. -/
theorem creditedJob_eq_some
    (credited : creditedJob env server client now request = some job) :
    jobFind server.jobs (htoi request.jobidParam) = some job ∧
      job.deleted = false ∧
        rejection env server job client now request = none := by
  rw [creditedJob] at credited
  have passed := (Option.filter_eq_some_iff.mp credited).2
  have found := (Option.filter_eq_some_iff.mp credited).1
  simp only [Bool.and_eq_true, Bool.not_eq_true', Option.isNone_iff_eq_none]
    at passed
  exact ⟨found, passed.1, passed.2⟩

/-- The submission passes exactly when it passes each of the checks. -/
theorem rejection_eq_none_iff :
    rejection env server job client now request = none ↔
      nonceAccepted request.nonce = true ∧
        ntimeError env.config job.templ now request.ntime = none ∧
          isDuplicate server job client request = false ∧
            verifyEH env.blake2b
                (ehHdr (submitvalues env job.templ client request).headerBin)
                (ehSln
                  (submitvalues env job.templ client request).headerBin) =
              true ∧
              lowDifficulty client job.templ
                  (submitvalues env job.templ client request).hashBin =
                false := by
  rw [rejection]
  cases nonceOk : nonceAccepted request.nonce with
  | false =>
      simp
  | true =>
      cases timeOk : ntimeError env.config job.templ now request.ntime with
      | some message =>
          simp
      | none =>
          cases duplicate : isDuplicate server job client request with
          | true =>
              simp
          | false =>
              simp only [Bool.not_true, Bool.false_eq_true, if_false,
                true_and]
              split
              · rename_i invalid
                simp_all
              · rename_i valid
                split
                · rename_i low
                  simp_all
                · rename_i high
                  simp_all

/-- An accepted nonce and time, and the nonce prefix, are canonical. -/
theorem canonicalKey_of_accepted
    (nonce1 : Extranonce1) {templ : YaampJobTemplate}
    (aligned : AlignedTemplate templ)
    (nonceOk : nonceAccepted request.nonce = true)
    (timeOk : ntimeError env.config templ now request.ntime = none) :
    CanonicalKey nonce1.text request.ntime request.nonce where
  nonce1 := nonce1.wellFormed
  ntime := lowerHex_ntime aligned timeOk
  nonce := ⟨length_of_nonceAccepted nonceOk, lowerHex_nonce nonceOk⟩

theorem canonicalKey_of_passed
    (aligned : AlignedTemplate job.templ)
    (passed : rejection env server job client now request = none) :
    CanonicalKey client.extranonce1.text request.ntime request.nonce := by
  obtain ⟨nonceOk, timeOk, -⟩ := rejection_eq_none_iff.mp passed
  exact canonicalKey_of_accepted client.extranonce1 aligned nonceOk timeOk

end Checks

/-! ## Shares and records -/

/-- An earlier submission with this key was recorded under the job. -/
def RecordedUnder
    (history : History) (jobid : Nat) (ntime nonce nonce1 : CString) :
    Prop :=
  ∃ record ∈ history.records,
    (∃ valid, record.recorded = some (jobid, valid)) ∧
      record.ntime = ntime ∧ record.nonce = nonce ∧ record.nonce1 = nonce1

structure ShareInvariant (history : History) : Prop where
  jobIds :
    ∀ job ∈ history.server.jobs,
      1 ≤ job.id ∧ job.id ≤ history.server.nextJobId
  shareIds :
    ∀ share ∈ history.server.shares,
      share.jobid ≤ history.server.nextJobId
  recordIds :
    ∀ record ∈ history.records, ∀ jobid valid,
      record.recorded = some (jobid, valid) →
        jobid ≤ history.server.nextJobId
  live :
    ∀ job ∈ history.server.jobs, ∀ ntime nonce nonce1,
      ShareLive history.server.shares job.id [] ntime nonce nonce1 ↔
        RecordedUnder history job.id ntime nonce nonce1

namespace ShareInvariant

variable {env : Environment} {history : History}

theorem initial : ShareInvariant History.initial where
  jobIds := by simp [History.initial, Server.initial]
  shareIds := by simp [History.initial, Server.initial]
  recordIds := by simp [History.initial]
  live := by simp [History.initial, Server.initial]

/-- Passing to a list whose jobs were listed before keeps the invariant. -/
theorem withJobs
    (holds : ShareInvariant history) {jobs : List YaampJob}
    (subset : KeptFrom history.server.jobs jobs) :
    ShareInvariant
      { history with server := { history.server with jobs := jobs } } where
  jobIds := by
    intro job listed
    obtain ⟨old, oldListed, same, -⟩ := subset job listed
    rw [← same]
    exact holds.jobIds old oldListed
  shareIds := holds.shareIds
  recordIds := holds.recordIds
  live := by
    intro job listed ntime nonce nonce1
    obtain ⟨old, oldListed, same, -⟩ := subset job listed
    rw [← same]
    exact holds.live old oldListed ntime nonce nonce1

theorem createJob
    (holds : ShareInvariant history) (coind : YaampCoind) (force : Bool)
    (now : Int) (gbt : GetBlockTemplate) :
    ShareInvariant
      (historyStep env history (.createJob coind force now gbt)) := by
  simp only [historyStep]
  rcases coindCreateJob_cases env history.server coind force now gbt with
    unchanged | ⟨templ, kept, -, keptFrom, changed⟩
  · rw [unchanged]
    exact holds
  · have old := withJobs holds keptFrom
    rw [changed]
    constructor
    · intro job listed
      rcases List.mem_append.mp listed with before | new
      · have bounds := old.jobIds job before
        exact ⟨bounds.1, Nat.le_succ_of_le bounds.2⟩
      · rw [List.mem_singleton.mp new]
        exact ⟨Nat.le_add_left 1 _, le_refl _⟩
    · intro share listed
      exact Nat.le_succ_of_le (holds.shareIds share listed)
    · intro record listed jobid valid recorded
      exact Nat.le_succ_of_le
        (holds.recordIds record listed jobid valid recorded)
    · intro job listed ntime nonce nonce1
      rcases List.mem_append.mp listed with before | new
      · exact old.live job before ntime nonce nonce1
      · -- The number is new, so neither side has an entry under it.
        rw [List.mem_singleton.mp new]
        constructor
        · rintro ⟨share, shareListed, -, key⟩
          have bound := holds.shareIds share shareListed
          simp only [YaampShare.hasKey, Bool.and_eq_true, beq_iff_eq] at key
          omega
        · rintro ⟨record, recordListed, ⟨valid, recorded⟩, -⟩
          have bound :=
            holds.recordIds record recordListed _ valid recorded
          simp only at bound
          omega

/-- Recording a submission adds it to both sides. -/
theorem withRecordedShare
    (holds : ShareInvariant history) {client : YaampClient}
    {request : SubmitRequest} {record : Record} {jobid : Nat} {valid : Bool}
    (known : jobid ≤ history.server.nextJobId)
    (recorded : record.recorded = some (jobid, valid))
    (key :
      record.ntime = request.ntime ∧ record.nonce = request.nonce ∧
        record.nonce1 = client.extranonce1.text) :
    ShareInvariant
      { server := recordShare history.server jobid client request
        records := history.records ++ [record] } where
  jobIds := holds.jobIds
  shareIds := by
    intro share listed
    rcases List.mem_append.mp listed with before | new
    · exact holds.shareIds share before
    · rw [List.mem_singleton.mp new]
      exact known
  recordIds := by
    intro other listed otherId otherValid otherRecorded
    rcases List.mem_append.mp listed with before | new
    · exact holds.recordIds other before otherId otherValid otherRecorded
    · rw [List.mem_singleton.mp new, recorded] at otherRecorded
      have same : jobid = otherId :=
        congrArg Prod.fst (Option.some.inj otherRecorded)
      rw [← same]
      exact known
  live := by
    intro job listed ntime nonce nonce1
    have before := holds.live job listed ntime nonce nonce1
    simp only [recordShare, shareLive_shareAdd_iff, true_and]
    rw [before]
    constructor
    · rintro (⟨old, oldListed, rest⟩ | ⟨sameJob, same⟩)
      · exact ⟨old, List.mem_append_left _ oldListed, rest⟩
      · refine ⟨record, List.mem_append_right _
          (List.mem_singleton_self _), ⟨valid, ?_⟩, ?_, ?_, ?_⟩
        · rw [recorded, sameJob]
        · rw [key.1, same.1]
        · rw [key.2.1, same.2.1]
        · rw [key.2.2, same.2.2]
    · rintro ⟨found, foundListed, ⟨foundValid, foundRecorded⟩, same⟩
      rcases List.mem_append.mp foundListed with old | new
      · exact Or.inl ⟨found, old, ⟨foundValid, foundRecorded⟩, same⟩
      · rw [List.mem_singleton.mp new] at foundRecorded same
        rw [recorded] at foundRecorded
        have sameJob := congrArg Prod.fst (Option.some.inj foundRecorded)
        refine Or.inr ⟨sameJob, ?_, ?_, ?_⟩
        · rw [← key.1, same.1]
        · rw [← key.2.1, same.2.1]
        · rw [← key.2.2, same.2.2]

/-- A submission that is not recorded leaves the shares as they are. -/
theorem withRecord
    (holds : ShareInvariant history) {record : Record}
    (unrecorded : record.recorded = none) :
    ShareInvariant
      { history with records := history.records ++ [record] } where
  jobIds := holds.jobIds
  shareIds := holds.shareIds
  recordIds := by
    intro other listed jobid valid recorded
    rcases List.mem_append.mp listed with before | new
    · exact holds.recordIds other before jobid valid recorded
    · rw [List.mem_singleton.mp new, unrecorded] at recorded
      exact absurd recorded (by simp)
  live := by
    intro job listed ntime nonce nonce1
    rw [holds.live job listed ntime nonce nonce1]
    constructor
    · rintro ⟨old, oldListed, rest⟩
      exact ⟨old, List.mem_append_left _ oldListed, rest⟩
    · rintro ⟨found, foundListed, ⟨valid, recorded⟩, same⟩
      rcases List.mem_append.mp foundListed with old | new
      · exact ⟨found, old, ⟨valid, recorded⟩, same⟩
      · rw [List.mem_singleton.mp new, unrecorded] at recorded
        exact absurd recorded (by simp)

theorem submitted
    (holds : ShareInvariant history) (client : YaampClient) (now : Int)
    (request : SubmitRequest) :
    ShareInvariant (submitStep env history client now request) := by
  have outcome :=
    clientSubmitEqui_cases env history.server client now request
  rw [submitStep]
  generalize handled :
    clientSubmitEqui env history.server client now request = result
    at outcome ⊢
  cases outcome with
  | unknown missing =>
      exact withRecordedShare holds (Nat.zero_le _) rfl ⟨rfl, rfl, rfl⟩
  | deleted job found dead =>
      exact withRecord holds rfl
  | rejected job number message found live failed =>
      have bounds := holds.jobIds job (jobFind_eq_some found).1
      exact withRecordedShare holds bounds.2 rfl ⟨rfl, rfl, rfl⟩
  | credited job found live passed =>
      have bounds := holds.jobIds job (jobFind_eq_some found).1
      exact withRecordedShare holds bounds.2 rfl ⟨rfl, rfl, rfl⟩

/-- Every event keeps the invariant. -/
theorem step (history : History) (event : Event)
    (holds : ShareInvariant history) :
    ShareInvariant (historyStep env history event) := by
  cases event with
  | createJob coind force now gbt =>
      exact createJob holds coind force now gbt
  | deleteJob id =>
      exact withJobs holds (keptFrom_jobDelete history.server.jobs id)
  | pruneJobs =>
      exact withJobs holds (keptFrom_pruneJobs history.server.jobs)
  | sharePrune =>
      refine ⟨holds.jobIds, ?_, holds.recordIds, ?_⟩
      · intro share listed
        obtain ⟨old, oldListed, same⟩ := List.mem_map.mp listed
        rw [← same]
        split
        · exact holds.shareIds old oldListed
        · exact holds.shareIds old oldListed
      · intro job listed ntime nonce nonce1
        have jobListed :
            (jobFind history.server.jobs job.id).isSome = true :=
          objectFind_isSome_iff.mpr ⟨job, listed, rfl⟩
        simp only [historyStep]
        rw [shareLive_sharePrune_iff jobListed]
        exact holds.live job listed ntime nonce nonce1
  | pruneShares =>
      refine ⟨holds.jobIds, ?_, holds.recordIds, ?_⟩
      · intro share listed
        obtain ⟨old, oldListed, -, same⟩ := mem_objectPrune.mp listed
        rw [← same]
        exact holds.shareIds old oldListed
      · intro job listed ntime nonce nonce1
        simp only [historyStep]
        rw [shareLive_pruneShares_iff]
        exact holds.live job listed ntime nonce nonce1
  | submit client now params =>
      rw [historyStep]
      cases submitRequest? params with
      | none =>
          exact holds
      | some request =>
          exact submitted holds client now request

/-- The invariant holds in every reachable history. -/
theorem run (env : Environment) (events : List Event) :
    ShareInvariant (historyAfter env events) :=
  Run.invariant_after step initial events

end ShareInvariant

/-! ## Listed jobs -/

/-- Every listed job carries a template that `coind_create_template` made. -/
def JobsCreated (env : Environment) (history : History) : Prop :=
  ∀ job ∈ history.server.jobs, ∃ coind now gbt,
    coindCreateTemplate env.sha256Double (env.coinbaseCreate coind)
        env.config coind now gbt =
      some job.templ

theorem submitStep_jobs
    (env : Environment) (history : History) (client : YaampClient)
    (now : Int) (request : SubmitRequest) :
    (submitStep env history client now request).server.jobs =
      history.server.jobs := by
  have outcome :=
    clientSubmitEqui_cases env history.server client now request
  rw [submitStep]
  generalize clientSubmitEqui env history.server client now request = result
    at outcome ⊢
  cases outcome <;> rfl

namespace JobsCreated

variable {env : Environment} {history : History}

theorem initial : JobsCreated env History.initial := by
  simp [JobsCreated, History.initial, Server.initial]

theorem withJobs
    (holds : JobsCreated env history) {jobs : List YaampJob}
    (subset : KeptFrom history.server.jobs jobs) :
    JobsCreated env
      { history with server := { history.server with jobs := jobs } } := by
  intro job listed
  obtain ⟨old, oldListed, -, same⟩ := subset job listed
  rw [← same]
  exact holds old oldListed

/-- Every event keeps the invariant. -/
theorem step (history : History) (event : Event)
    (holds : JobsCreated env history) :
    JobsCreated env (historyStep env history event) := by
  cases event with
  | createJob coind force now gbt =>
      simp only [historyStep]
      rcases coindCreateJob_cases env history.server coind force now gbt with
        unchanged | ⟨templ, kept, created, keptFrom, changed⟩
      · rw [unchanged]
        exact holds
      · rw [changed]
        intro job listed
        rcases List.mem_append.mp listed with before | new
        · exact withJobs holds keptFrom job before
        · rw [List.mem_singleton.mp new]
          exact ⟨coind, now, gbt, created⟩
  | deleteJob id =>
      exact withJobs holds (keptFrom_jobDelete history.server.jobs id)
  | pruneJobs =>
      exact withJobs holds (keptFrom_pruneJobs history.server.jobs)
  | sharePrune =>
      exact holds
  | pruneShares =>
      exact holds
  | submit client now params =>
      rw [historyStep]
      cases submitRequest? params with
      | none =>
          exact holds
      | some request =>
          rw [JobsCreated, submitStep_jobs]
          exact holds

/-- The header fields of listed jobs have the lengths of a created template. -/
theorem aligned
    (holds : JobsCreated env history) {job : YaampJob}
    (listed : job ∈ history.server.jobs) : AlignedTemplate job.templ := by
  obtain ⟨coind, now, gbt, created⟩ := holds job listed
  exact coindCreateTemplate_aligned created

/-- The invariant holds in every reachable history. -/
theorem run (env : Environment) (events : List Event) :
    JobsCreated env (historyAfter env events) :=
  Run.invariant_after step initial events

end JobsCreated

/-! ## A sample server -/

section Sample

/-- An environment in which every digest of BLAKE2b is zero. -/
def sampleEnvironment : Environment where
  sha256Double := sampleSha256Double
  blake2b := fun _ _ => Vector.replicate 50 0
  coinbaseCreate := fun _ => sampleCoinb
  config := sampleConfig

/-- The first client of a server, at the difficulty of the sample file. -/
def sampleClient : YaampClient where
  extranonce1 :=
    { text := hexlify [0x81, 0x00, 0x00, 0x01]
      wellFormed := Or.inr ⟨by decide, by decide⟩ }
  difficultyActual := 1 / 200

/-- The job that a forced creation adds. -/
def sampleJob (jobid : Nat) : YaampJob where
  toYaampObject := { YaampObject.zeroed with id := jobid }
  templ := sampleTempl []

/-- The forced creation of a job for the block without transactions. -/
def sampleCreation : Event :=
  .createJob sampleCoind true 0 (sampleGbt [])

/-- The parameters of a submission to a job. -/
def sampleParams (jobid equiSolution : CString) : List CString :=
  [[], jobid, sampleRequest.ntimeParam, sampleRequest.nonceParam,
    equiSolution]

/-- The parameters of a sample submission, copied. -/
def sampleSubmission (jobid equiSolution : CString) : SubmitRequest :=
  { sampleRequest with
    jobidParam := jobid
    equiSolutionParam := equiSolution }

theorem sampleSubmission_nonce (jobid equiSolution : CString) :
    (sampleSubmission jobid equiSolution).nonce = sampleRequest.nonce :=
  rfl

theorem sampleSubmission_ntime (jobid equiSolution : CString) :
    (sampleSubmission jobid equiSolution).ntime = sampleRequest.ntime :=
  rfl

theorem sampleJob_templ (jobid : Nat) :
    (sampleJob jobid).templ = sampleTempl [] := by
  rw [sampleJob]

theorem sampleEnvironment_config :
    sampleEnvironment.config = sampleConfig :=
  rfl

theorem sampleJob_live (jobid : Nat) : (sampleJob jobid).deleted = false :=
  rfl

/-- The server after the first job was created. -/
def sampleServer : Server where
  jobs := [sampleJob 1]
  shares := []
  nextJobId := 1
  coindJob := Function.update (fun _ => none) 1 (some 1)

theorem historyStep_sampleCreation :
    historyStep sampleEnvironment History.initial sampleCreation =
      { server := sampleServer, records := [] } := by
  simp only [sampleCreation, historyStep, coindCreateJob, sampleEnvironment,
    sampleTempl_created]
  rfl

end Sample

end YiimpStratum.Submit
