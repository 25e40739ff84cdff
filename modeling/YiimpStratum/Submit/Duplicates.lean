import YiimpStratum.Submit.History

/-!
# The reply "Duplicate share"

Which submissions are answered as duplicates, in every reachable state.  The
reply depends on the job, the time, the nonce and its prefix, so a submission
with a new solution is a duplicate exactly when an earlier submission with
these four strings was recorded under the job, credited or not.
-/

namespace YiimpStratum.Submit

open YiimpStratum
open YiimpStratum.Util
open YiimpStratum.Template

/-! ## The reply -/

def duplicateReply : Reply :=
  .error 22 "Duplicate share"

/-- No earlier submission has the same job, nonces, time and solution. -/
def NewSubmission
    (history : History) (client : YaampClient) (request : SubmitRequest) :
    Prop :=
  ∀ record ∈ history.records,
    ¬ (record.jobid = htoi request.jobidParam ∧
      record.nonce1 = client.extranonce1.text ∧
        record.nonce = request.nonce ∧ record.ntime = request.ntime ∧
          record.equiSolution = request.equiSolution)

/-- The submission is for a live job and passes the nonce and time checks. -/
def ReachesDuplicateCheck
    (env : Environment) (server : Server) (now : Int)
    (request : SubmitRequest) : Prop :=
  ∃ job, jobFind server.jobs (htoi request.jobidParam) = some job ∧
    job.deleted = false ∧ nonceAccepted request.nonce = true ∧
      ntimeError env.config job.templ now request.ntime = none

section Reply

variable {env : Environment} {server : Server} {client : YaampClient}
variable {now : Int} {request : SubmitRequest}

/-- The error 22 comes from the duplicate check alone. -/
theorem rejection_eq_duplicate_iff {job : YaampJob} :
    rejection env server job client now request =
        some (22, "Duplicate share") ↔
      nonceAccepted request.nonce = true ∧
        ntimeError env.config job.templ now request.ntime = none ∧
          isDuplicate server job client request = true := by
  rw [rejection]
  cases nonceOk : nonceAccepted request.nonce with
  | false =>
      simp
  | true =>
      cases timeOk : ntimeError env.config job.templ now request.ntime with
      | some message =>
          simp
      | none =>
          cases duplicate : isDuplicate server job client request with
          | true =>
              simp
          | false =>
              simp only [Bool.not_true, Bool.false_eq_true, if_false,
                and_false, iff_false]
              split
              · simp
              · split <;> simp

/-- When the handler answers "Duplicate share". -/
theorem reply_eq_duplicate_iff :
    (clientSubmitEqui env server client now request).2.reply =
        duplicateReply ↔
      ∃ job, jobFind server.jobs (htoi request.jobidParam) = some job ∧
        job.deleted = false ∧
          rejection env server job client now request =
            some (22, "Duplicate share") := by
  have outcome := clientSubmitEqui_cases env server client now request
  generalize clientSubmitEqui env server client now request = result
    at outcome ⊢
  cases outcome with
  | unknown missing =>
      simp [duplicateReply, missing]
  | deleted job found dead =>
      simp [duplicateReply, found, dead]
  | rejected job number message found live failed =>
      simp [duplicateReply, found, live, failed]
  | credited job found live passed =>
      simp [duplicateReply, found, passed]

end Reply

/-! ## In reachable states -/

section Reachable

variable (env : Environment) (events : List Event) (client : YaampClient)
variable (now : Int) (request : SubmitRequest)

/-- A duplicate repeats the key of a submission recorded under the job. -/
theorem reply_eq_duplicate_iff_recorded :
    (clientSubmitEqui env (historyAfter env events).server client now
        request).2.reply = duplicateReply ↔
      ReachesDuplicateCheck env (historyAfter env events).server now
          request ∧
        RecordedUnder (historyAfter env events) (htoi request.jobidParam)
          request.ntime request.nonce client.extranonce1.text := by
  have holds := ShareInvariant.run env events
  rw [reply_eq_duplicate_iff]
  constructor
  · rintro ⟨job, found, live, rejected⟩
    obtain ⟨nonceOk, timeOk, duplicate⟩ :=
      rejection_eq_duplicate_iff.mp rejected
    obtain ⟨listed, same⟩ := jobFind_eq_some found
    refine ⟨⟨job, found, live, nonceOk, timeOk⟩, ?_⟩
    rw [← same, ← holds.live job listed]
    exact shareFind_isSome_iff.mp duplicate
  · rintro ⟨⟨job, found, live, nonceOk, timeOk⟩, recorded⟩
    obtain ⟨listed, same⟩ := jobFind_eq_some found
    refine ⟨job, found, live, rejection_eq_duplicate_iff.mpr
      ⟨nonceOk, timeOk, ?_⟩⟩
    rw [← same, ← holds.live job listed] at recorded
    exact shareFind_isSome_iff.mpr recorded

/--
A new submission is not answered as a duplicate exactly when it is turned away
before the duplicate check, or it is not new, or no submission with its time,
nonce and nonce prefix was recorded under the job.
-/
theorem no_false_duplicate_iff :
    (NewSubmission (historyAfter env events) client request →
        (clientSubmitEqui env (historyAfter env events).server client now
          request).2.reply ≠ duplicateReply) ↔
      ¬ ReachesDuplicateCheck env (historyAfter env events).server now
          request ∨
        ¬ NewSubmission (historyAfter env events) client request ∨
          ¬ RecordedUnder (historyAfter env events)
            (htoi request.jobidParam) request.ntime request.nonce
            client.extranonce1.text := by
  rw [Ne, reply_eq_duplicate_iff_recorded]
  tauto

end Reachable

/-! ## A false duplicate -/

section Sample

/-- A run with one submission, whose solution is the string `00`. -/
def submittedOnce : List Event :=
  [sampleCreation, .submit sampleClient 0 (sampleParams ['1'] ['0', '0'])]

theorem historyAfter_submittedOnce :
    historyAfter sampleEnvironment submittedOnce =
      { server :=
          recordShare sampleServer 1 sampleClient
            (sampleSubmission ['1'] ['0', '0'])
        records :=
          [liveRecord sampleEnvironment sampleServer (sampleJob 1)
            sampleClient 0 (sampleSubmission ['1'] ['0', '0'])] } := by
  have found :
      jobFind sampleServer.jobs
          (htoi (sampleSubmission ['1'] ['0', '0']).jobidParam) =
        some (sampleJob 1) :=
    rfl
  have parsed :
      submitRequest? (sampleParams ['1'] ['0', '0']) =
        some (sampleSubmission ['1'] ['0', '0']) :=
    rfl
  simp only [historyAfter, submittedOnce, Run.after_cons, Run.after_nil]
  rw [historyStep_sampleCreation, historyStep, parsed]
  exact submitStep_of_live found (sampleJob_live 1)

/--
After a submission with the solution `00`, one with the solution `01` is new
and is answered as a duplicate.
-/
theorem false_duplicate_at_submittedOnce :
    NewSubmission (historyAfter sampleEnvironment submittedOnce)
        sampleClient (sampleSubmission ['1'] ['0', '1']) ∧
      (clientSubmitEqui sampleEnvironment
          (historyAfter sampleEnvironment submittedOnce).server sampleClient
          0 (sampleSubmission ['1'] ['0', '1'])).2.reply =
        duplicateReply := by
  constructor
  · rw [historyAfter_submittedOnce]
    intro record listed same
    rw [List.mem_singleton.mp listed] at same
    exact absurd same.2.2.2.2 (by decide)
  · rw [reply_eq_duplicate_iff_recorded, historyAfter_submittedOnce]
    constructor
    · refine ⟨sampleJob 1, rfl, sampleJob_live 1, ?_, ?_⟩
      · rw [sampleSubmission_nonce]
        exact sampleRequest_nonceAccepted
      · rw [sampleSubmission_ntime, sampleJob_templ,
          sampleEnvironment_config]
        exact sampleRequest_ntimeError []
    · exact ⟨_, List.mem_singleton_self _, ⟨_, rfl⟩, rfl, rfl, rfl⟩

end Sample

end YiimpStratum.Submit
