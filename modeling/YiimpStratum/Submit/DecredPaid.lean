import YiimpStratum.Library.Run
import YiimpStratum.Submit.Decred

/-!
# Decred work that is paid once

The header of a Decred job contains the nonce and the `extranonce2` of a
submission, but neither its time nor the `extranonce1` of the client, which
both take part in the duplicate check.

A run credits no header of a job twice when its submissions keep the time of
the job, have digits only in `extranonce2`, and come from clients that have the
`extranonce1` that goes with this algorithm.
-/

namespace YiimpStratum.Decred

open YiimpStratum
open YiimpStratum.Util

/-! ## Histories -/

/-- A credited submission to a Decred job: its key and its header. -/
structure Credit where
  jobid : Nat
  extranonce2 : CString
  ntime : CString
  nonce : CString
  nonce1 : CString
  work : List UInt8
  deriving DecidableEq

/-- The server together with the credited submissions, in order. -/
structure History where
  server : Server
  credits : List Credit

/-- The server at its start. -/
def History.initial : History where
  server := { jobs := [], shares := [], nextJobId := 0 }
  credits := []

inductive Event where
  | createJob (rpcencoding : Option CString) (templ : YaampJobTemplate)
  | deleteJob (id : Nat)
  | pruneJobs
  | sharePrune
  | pruneShares
  | submit (client : YaampClient) (now : Int) (params : List CString)

/-- The credit for a submission under a job. -/
def creditOf (job : YaampJob) (client : YaampClient)
    (request : SubmitRequest) : Credit where
  jobid := job.id
  extranonce2 := request.extranonce2
  ntime := request.ntime
  nonce := request.nonce
  nonce1 := client.extranonce1
  work := (decredHeader job request).bytes

namespace Server

variable (server : Server)

/-- `coind_create_job` adds a job with the next number. -/
def createJob (rpcencoding : Option CString) (templ : YaampJobTemplate) :
    Server :=
  { server with
    jobs :=
      server.jobs ++
        [{ toYaampObject :=
            { YaampObject.zeroed with id := server.nextJobId + 1 }
           rpcencoding := rpcencoding
           templ := templ }]
    nextJobId := server.nextJobId + 1 }

/-- `object_delete` on the listed job with this number. -/
def deleteJob (id : Nat) : Server :=
  { server with
    jobs := server.jobs.map fun job => if job.id = id then job.delete else job }

/-- `object_prune` on the list of jobs. -/
def pruneJobs : Server :=
  { server with
    jobs :=
      objectPrune YaampJob.toYaampObject YaampJob.setHeader server.jobs }

end Server

section Definitions

variable (env : Environment)

def submitStep (history : History) (client : YaampClient) (now : Int)
    (request : SubmitRequest) : History where
  server := clientSubmit history.server client request
  credits :=
    history.credits ++
      (((creditedJob env history.server client now request).filter
        YaampJob.isDecred).map fun job =>
          creditOf job client request).toList

def step (history : History) : Event → History
  | .createJob rpcencoding templ =>
      { history with server := history.server.createJob rpcencoding templ }
  | .deleteJob id => { history with server := history.server.deleteJob id }
  | .pruneJobs => { history with server := history.server.pruneJobs }
  | .sharePrune =>
      { history with
        server :=
          { history.server with
            shares :=
              YiimpStratum.sharePrune
                (fun id => (jobFind history.server.jobs id).isSome)
                history.server.shares } }
  | .pruneShares =>
      { history with
        server :=
          { history.server with
            shares := YiimpStratum.pruneShares history.server.shares } }
  | .submit client now params =>
      match submitRequest? env params with
      | none => history
      | some request => submitStep env history client now request

end Definitions

/-! ## The property and its condition -/

/-- No two credited submissions to one job have the same header. -/
def WorkPaidOnce (history : History) : Prop :=
  history.credits.Pairwise fun earlier later =>
    earlier.jobid = later.jobid → earlier.work ≠ later.work

/--
The submission keeps the time of the job and has digits only in `extranonce2`,
and the client has an `extranonce1` as `client_subscribe` gives it.
-/
structure Plain (job : YaampJob) (client : YaampClient)
    (request : SubmitRequest) : Prop where
  ntime : request.ntime = job.templ.ntime
  digits : LowerHex request.extranonce2
  size : client.extranonce2size = 12
  reserved : client.extranonce1.take 16 = List.replicate 16 '0'

/-- A submission to a Decred job is plain. -/
def Careful (env : Environment) (history : History) : Event → Prop
  | .submit client _ params =>
      ∀ request, submitRequest? env params = some request →
        ∀ job, jobFind history.server.jobs request.jobid = some job →
          job.isDecred = true → Plain job client request
  | _ => True

/-! ## What the header contains -/

theorem length_numberBytes (width number : Nat) :
    (numberBytes width number).length = width := by
  rw [numberBytes, List.length_reverse, BigEndian.length_encode]

theorem numberBytes_injective {width left right : Nat}
    (leftFits : left < 256 ^ width) (rightFits : right < 256 ^ width)
    (same : numberBytes width left = numberBytes width right) :
    left = right := by
  have encoded := List.reverse_injective same
  have values := congrArg BigEndian.value encoded
  rw [BigEndian.value_encode, BigEndian.value_encode,
    Nat.mod_eq_of_lt leftFits, Nat.mod_eq_of_lt rightFits] at values
  exact values

theorem length_front (header : BlockHeader) : header.front.length = 140 := by
  simp only [BlockHeader.front, List.length_append, length_numberBytes,
    Vector.length_toList, List.length_cons, List.length_nil]

/-- The header determines its nonce and its extra data. -/
theorem bytes_injective {left right : BlockHeader}
    (same : left.bytes = right.bytes) :
    left.nonce = right.nonce ∧ left.extra = right.extra := by
  obtain ⟨-, rest⟩ := List.append_inj same
    ((length_front left).trans (length_front right).symm)
  obtain ⟨nonces, tail⟩ := List.append_inj rest
    ((length_numberBytes 4 _).trans (length_numberBytes 4 _).symm)
  obtain ⟨extras, -⟩ := List.append_inj tail
    ((Vector.length_toList).trans (Vector.length_toList).symm)
  refine ⟨UInt32.toNat.inj ?_, Vector.toList_inj.mp extras⟩
  exact numberBytes_injective left.nonce.toNat_lt right.nonce.toNat_lt nonces

theorem nonce_createDecredHeader (templ : YaampJobTemplate)
    {nonce : CString} (nonce2 vote : CString) (digits : LowerHex nonce)
    (length : nonce.length = 8) :
    (createDecredHeader templ nonce nonce2 vote).nonce.toNat =
      hexDigitsValue nonce := by
  have below := hexDigitsValue_lt digits
  rw [length] at below
  have parsed := scanHex_of_lowerHex digits length (by decide)
  have stored : (createDecredHeader templ nonce nonce2 vote).nonce =
      UInt32.ofInt (hexDigitsValue nonce : Int) := by
    rw [createDecredHeader, parsed]
  have word : ((hexDigitsValue nonce : Int) % 2 ^ 32).toNat =
      hexDigitsValue nonce := by
    omega
  rw [stored, UInt32.ofInt, word, UInt32.toNat_ofNat_of_lt' (by omega)]

/-- Arrays filled from byte strings of one length differ as these do. -/
theorem ofFn_getD_injective {size : Nat} {left right : List UInt8}
    (lengths : left.length = right.length) (fits : left.length ≤ size)
    (same :
      (Vector.ofFn fun i : Fin size => left.getD i 0) =
        Vector.ofFn fun i : Fin size => right.getD i 0) :
    left = right := by
  refine List.ext_getElem lengths fun i below otherBelow => ?_
  have inside : i < size := below.trans_le fits
  have entry := congrArg (fun array : Vector UInt8 size => array[i]) same
  simp only [Vector.getElem_ofFn, List.getD_eq_getElem _ _ below,
    List.getD_eq_getElem _ _ otherBelow] at entry
  exact entry

/-- Nonces and extra data of whole digits can be read off the header. -/
theorem createDecredHeader_injective {templ templ' : YaampJobTemplate}
    {nonce nonce' nonce2 nonce2' vote vote' : CString}
    (nonceDigits : LowerHex nonce) (nonceDigits' : LowerHex nonce')
    (nonceLength : nonce.length = 8) (nonceLength' : nonce'.length = 8)
    (digits : LowerHex nonce2) (digits' : LowerHex nonce2')
    (length : nonce2.length = 24) (length' : nonce2'.length = 24)
    (same : (createDecredHeader templ nonce nonce2 vote).bytes =
      (createDecredHeader templ' nonce' nonce2' vote').bytes) :
    nonce = nonce' ∧ nonce2 = nonce2' := by
  obtain ⟨nonces, extras⟩ := bytes_injective same
  constructor
  · refine hexDigitsValue_injective nonceDigits nonceDigits'
      (nonceLength.trans nonceLength'.symm) ?_
    rw [← nonce_createDecredHeader templ nonce2 vote nonceDigits nonceLength,
      ← nonce_createDecredHeader templ' nonce2' vote' nonceDigits'
        nonceLength', nonces]
  · have bytes : binlify nonce2 = binlify nonce2' := by
      refine ofFn_getD_injective ?_ ?_ extras
      · rw [length_binlify, length_binlify, length, length']
      · rw [length_binlify, length]
        decide
    exact binlify_injective_of_lowerHex digits digits' (by rw [length])
      (by rw [length']) bytes

/-! ## What the checks leave -/

/-- What `creditedJob` says of a submission. -/
theorem creditedJob_eq_some {env : Environment} {server : Server}
    {client : YaampClient} {now : Int} {request : SubmitRequest}
    {job : YaampJob}
    (credited : creditedJob env server client now request = some job) :
    jobFind server.jobs request.jobid = some job ∧ job.deleted = false ∧
      rejection env server job client now request = none := by
  rw [creditedJob, Option.filter_eq_some_iff, Bool.and_eq_true,
    Bool.not_eq_true', Option.isNone_iff_eq_none] at credited
  exact credited

/-- What the checks say of a submission that passes them. -/
theorem of_rejection {env : Environment} {server : Server} {job : YaampJob}
    {client : YaampClient} {now : Int} {request : SubmitRequest}
    (passed : rejection env server job client now request = none) :
    nonceAccepted request.nonce = true ∧
      isDuplicate server job client request = false ∧
        extranonceError job client request.extranonce2 = none := by
  rw [rejection] at passed
  split at passed
  · cases passed
  · rename_i accepted
    rw [Bool.not_eq_true, Bool.not_eq_false'] at accepted
    split at passed
    · cases passed
    · split at passed
      · cases passed
      · rename_i fresh
        rw [Bool.not_eq_true] at fresh
        exact ⟨accepted, fresh, (Option.or_eq_none_iff.mp passed).1⟩

/-- The end of `extranonce2` is that of the client's `extranonce1`. -/
theorem suffix_of_extranonceError {job : YaampJob} {client : YaampClient}
    {extranonce2 : CString} (decred : job.isDecred = true)
    (size : client.extranonce2size = 12)
    (passed : extranonceError job client extranonce2 = none) :
    extranonce2.length = 24 ∧
      extranonce2.drop 16 = client.extranonce1.drop 16 := by
  rw [extranonceError, decred, size] at passed
  split at passed
  · cases passed
  · rename_i long
    have length : extranonce2.length = 24 := by omega
    refine ⟨length, ?_⟩
    rw [if_pos (by decide)] at passed
    dsimp only at passed
    split at passed
    · cases passed
    · rename_i equal
      rw [Bool.or_eq_true, not_or, bne_iff_ne, not_not] at equal
      exact equal.2

/-- The strings of a submission are in lower case. -/
theorem submitRequest?_nonce {env : Environment} {params : List CString}
    {request : SubmitRequest}
    (read : submitRequest? env params = some request) :
    ∃ text, request.nonce = stringLower text := by
  rw [submitRequest?.eq_def] at read
  split at read
  · split at read
    · cases read
    · cases read
      exact ⟨_, rfl⟩
  · cases read

theorem nonce_of_accepted {env : Environment} {params : List CString}
    {request : SubmitRequest}
    (read : submitRequest? env params = some request)
    (accepted : nonceAccepted request.nonce = true) :
    LowerHex request.nonce ∧ request.nonce.length = 8 := by
  obtain ⟨text, lower⟩ := submitRequest?_nonce read
  rw [nonceAccepted, Bool.and_eq_true, beq_iff_eq] at accepted
  obtain ⟨length, digits⟩ := accepted
  rw [lower] at length digits ⊢
  rw [length_stringLower] at length
  refine ⟨lowerHex_stringLower_of_ishexa ?_, ?_⟩
  · rw [length]
    exact digits
  · rw [length_stringLower]
    exact length

/-! ## The invariant -/

/-- The strings of a credit determine its header and its `nonce1`. -/
structure Canonical (credit : Credit) : Prop where
  nonce : LowerHex credit.nonce
  nonceLength : credit.nonce.length = 8
  extranonce2 : LowerHex credit.extranonce2
  extranonce2Length : credit.extranonce2.length = 24
  nonce1 :
    credit.nonce1 = List.replicate 16 '0' ++ credit.extranonce2.drop 16
  work : ∃ templ vote,
    credit.work =
      (createDecredHeader templ credit.nonce credit.extranonce2 vote).bytes

theorem Canonical.injective {left right : Credit} (first : Canonical left)
    (second : Canonical right) (same : left.work = right.work) :
    left.nonce = right.nonce ∧ left.extranonce2 = right.extranonce2 ∧
      left.nonce1 = right.nonce1 := by
  obtain ⟨templ, vote, work⟩ := first.work
  obtain ⟨templ', vote', work'⟩ := second.work
  rw [work, work'] at same
  obtain ⟨nonces, extras⟩ := createDecredHeader_injective first.nonce
    second.nonce first.nonceLength second.nonceLength first.extranonce2
    second.extranonce2 first.extranonce2Length second.extranonce2Length same
  exact ⟨nonces, extras, by rw [first.nonce1, second.nonce1, extras]⟩

/-- The share of a credit is in the list. -/
def Credit.Live (credit : Credit) (shares : List YaampShare) : Prop :=
  ShareLive shares credit.jobid credit.extranonce2 credit.ntime credit.nonce
    credit.nonce1

structure Sound (history : History) : Prop where
  ids : ∀ job ∈ history.server.jobs, job.id ≤ history.server.nextJobId
  unique : ∀ job ∈ history.server.jobs, ∀ other ∈ history.server.jobs,
    job.id = other.id → job.templ.ntime = other.templ.ntime
  creditIds : ∀ credit ∈ history.credits,
    credit.jobid ≤ history.server.nextJobId
  canonical : ∀ credit ∈ history.credits, Canonical credit
  live : ∀ credit ∈ history.credits, ∀ job ∈ history.server.jobs,
    job.id = credit.jobid →
      credit.ntime = job.templ.ntime ∧ credit.Live history.server.shares
  once : WorkPaidOnce history

namespace Sound

variable {history : History}

theorem initial : Sound History.initial where
  ids := fun job member => by cases member
  unique := fun job member => by cases member
  creditIds := fun credit member => by cases member
  canonical := fun credit member => by cases member
  live := fun credit member => by cases member
  once := List.Pairwise.nil

/-- Jobs that were there before, with their numbers and times. -/
theorem withJobs (sound : Sound history) {jobs : List YaampJob}
    (kept : ∀ job ∈ jobs, ∃ old ∈ history.server.jobs,
      old.id = job.id ∧ old.templ = job.templ) :
    Sound
      { history with server := { history.server with jobs := jobs } } where
  ids := by
    intro job member
    obtain ⟨old, oldMember, sameId, -⟩ := kept job member
    exact sameId ▸ sound.ids old oldMember
  unique := by
    intro job member other otherMember same
    obtain ⟨old, oldMember, sameId, templ⟩ := kept job member
    obtain ⟨older, olderMember, otherId, otherTempl⟩ :=
      kept other otherMember
    rw [← templ, ← otherTempl]
    exact sound.unique old oldMember older olderMember
      (sameId.trans (same.trans otherId.symm))
  creditIds := sound.creditIds
  canonical := sound.canonical
  live := by
    intro credit member job jobMember same
    obtain ⟨old, oldMember, sameId, templ⟩ := kept job jobMember
    rw [← templ]
    exact sound.live credit member old oldMember (sameId.trans same)
  once := sound.once

/-- Shares among which those of the listed jobs are live as before. -/
theorem withShares (sound : Sound history) {shares : List YaampShare}
    (kept : ∀ credit ∈ history.credits, ∀ job ∈ history.server.jobs,
      job.id = credit.jobid → credit.Live history.server.shares →
        credit.Live shares) :
    Sound
      { history with
        server := { history.server with shares := shares } } where
  ids := sound.ids
  unique := sound.unique
  creditIds := sound.creditIds
  canonical := sound.canonical
  live := by
    intro credit member job jobMember same
    obtain ⟨ntime, live⟩ := sound.live credit member job jobMember same
    exact ⟨ntime, kept credit member job jobMember same live⟩
  once := sound.once

theorem createJob (sound : Sound history) (rpcencoding : Option CString)
    (templ : YaampJobTemplate) :
    Sound
      { history with
        server := history.server.createJob rpcencoding templ } := by
  have cases : ∀ job ∈ (history.server.createJob rpcencoding templ).jobs,
      job ∈ history.server.jobs ∨
        job.id = history.server.nextJobId + 1 ∧ job.templ = templ := by
    intro job member
    refine (List.mem_append.mp member).imp_right fun new => ?_
    rw [List.mem_singleton.mp new]
    exact ⟨rfl, rfl⟩
  refine ⟨?_, ?_, ?_, sound.canonical, ?_, sound.once⟩
  · intro job member
    rcases cases job member with old | ⟨new, -⟩
    · exact (sound.ids job old).trans (Nat.le_succ _)
    · exact new.le
  · intro job member other otherMember same
    rcases cases job member with old | ⟨new, templates⟩
    · rcases cases other otherMember with older | ⟨newer, -⟩
      · exact sound.unique job old other older same
      · have bound := sound.ids job old
        omega
    · rcases cases other otherMember with older | ⟨-, others⟩
      · have bound := sound.ids other older
        omega
      · rw [templates, others]
  · exact fun credit member =>
      (sound.creditIds credit member).trans (Nat.le_succ _)
  · intro credit member job jobMember same
    rcases cases job jobMember with old | ⟨new, -⟩
    · exact sound.live credit member job old same
    · have bound := sound.creditIds credit member
      omega

/-- A submission to a job that is not credited with a header. -/
theorem shared (sound : Sound history) (jobid : Nat) (client : YaampClient)
    (request : SubmitRequest) :
    Sound
      { history with
        server := recordShare history.server jobid client request } :=
  sound.withShares fun _ _ _ _ _ live =>
    shareLive_shareAdd_iff.mpr (Or.inl live)

/-- A plain submission that is credited has a new header. -/
theorem credited (sound : Sound history) {env : Environment}
    {client : YaampClient} {now : Int} {params : List CString}
    {request : SubmitRequest} {job : YaampJob}
    (read : submitRequest? env params = some request)
    (credited :
      creditedJob env history.server client now request = some job)
    (decred : job.isDecred = true) (plain : Plain job client request) :
    Sound
      { server := recordShare history.server job.id client request
        credits := history.credits ++ [creditOf job client request] } := by
  obtain ⟨found, -, passed⟩ := creditedJob_eq_some credited
  obtain ⟨member, -⟩ := objectFind_eq_some found
  obtain ⟨accepted, fresh, extranonce⟩ := of_rejection passed
  obtain ⟨nonceDigits, nonceLength⟩ := nonce_of_accepted read accepted
  obtain ⟨length, suffix⟩ :=
    suffix_of_extranonceError decred plain.size extranonce
  have canonical : Canonical (creditOf job client request) :=
    { nonce := nonceDigits
      nonceLength := nonceLength
      extranonce2 := plain.digits
      extranonce2Length := length
      nonce1 := by
        rw [← plain.reserved]
        exact (suffix ▸ List.take_append_drop 16 client.extranonce1).symm
      work := ⟨job.templ, request.vote, rfl⟩ }
  have before := sound.shared job.id client request
  refine ⟨before.ids, before.unique, ?_, ?_, ?_, ?_⟩
  · refine List.forall_mem_append.mpr ⟨before.creditIds, ?_⟩
    rw [List.forall_mem_singleton]
    exact sound.ids job member
  · refine List.forall_mem_append.mpr ⟨before.canonical, ?_⟩
    rw [List.forall_mem_singleton]
    exact canonical
  · refine List.forall_mem_append.mpr ⟨before.live, ?_⟩
    rw [List.forall_mem_singleton]
    intro other otherMember same
    refine ⟨?_, shareLive_shareAdd_iff.mpr
      (Or.inr ⟨rfl, rfl, rfl, rfl, rfl⟩)⟩
    exact plain.ntime.trans
      (sound.unique job member other otherMember same.symm)
  · refine List.pairwise_append.mpr
      ⟨sound.once, List.pairwise_singleton _ _, ?_⟩
    intro earlier earlierMember later laterMember sameJob sameWork
    rw [List.mem_singleton.mp laterMember] at sameJob sameWork
    -- the share of the earlier credit would have been found
    obtain ⟨ntime, live⟩ :=
      sound.live earlier earlierMember job member sameJob.symm
    obtain ⟨nonce, extranonce2, nonce1⟩ :=
      (sound.canonical earlier earlierMember).injective canonical sameWork
    rw [Credit.Live, sameJob, extranonce2, ntime, nonce, nonce1] at live
    have duplicate : isDuplicate history.server job client request = true := by
      rw [isDuplicate, shareFind_isSome_iff, plain.ntime]
      exact live
    rw [fresh] at duplicate
    exact Bool.noConfusion duplicate

theorem submitted (sound : Sound history) {env : Environment}
    {client : YaampClient} {now : Int} {params : List CString}
    {request : SubmitRequest}
    (read : submitRequest? env params = some request)
    (careful : ∀ job, jobFind history.server.jobs request.jobid = some job →
      job.isDecred = true → Plain job client request) :
    Sound (submitStep env history client now request) := by
  rw [submitStep]
  cases filtered : (creditedJob env history.server client now request).filter
      YaampJob.isDecred with
  | none =>
      rw [Option.map_none, Option.toList_none, List.append_nil, clientSubmit]
      split
      · exact sound.shared 0 client request
      · split
        · exact sound
        · exact sound.shared _ client request
  | some job =>
      obtain ⟨credited, decred⟩ := Option.filter_eq_some_iff.mp filtered
      obtain ⟨found, live, -⟩ := creditedJob_eq_some credited
      rw [Option.map_some, Option.toList_some, clientSubmit, found]
      dsimp only
      rw [live, if_neg Bool.false_ne_true]
      exact sound.credited read credited decred (careful job found decred)

/-- Every careful event keeps the invariant. -/
theorem step {env : Environment} (history : History) (event : Event)
    (sound : Sound history) (careful : Careful env history event) :
    Sound (Decred.step env history event) := by
  cases event with
  | createJob rpcencoding templ => exact sound.createJob rpcencoding templ
  | deleteJob id =>
      refine sound.withJobs fun job member => ?_
      obtain ⟨old, oldMember, rfl⟩ := List.mem_map.mp member
      refine ⟨old, oldMember, ?_⟩
      split
      · exact ⟨rfl, rfl⟩
      · exact ⟨rfl, rfl⟩
  | pruneJobs =>
      refine sound.withJobs fun job member => ?_
      obtain ⟨old, oldMember, -, rfl⟩ := mem_objectPrune.mp member
      exact ⟨old, oldMember, (YaampObject.release_id _).symm, rfl⟩
  | sharePrune =>
      refine sound.withShares fun credit _ job jobMember same live => ?_
      refine (shareLive_sharePrune_iff ?_).mpr live
      exact objectFind_isSome_iff.mpr ⟨job, jobMember, same⟩
  | pruneShares =>
      exact sound.withShares fun _ _ _ _ _ live =>
        shareLive_pruneShares_iff.mpr live
  | submit client now params =>
      rw [Decred.step.eq_def]
      dsimp only
      cases read : submitRequest? env params with
      | none => exact sound
      | some request => exact sound.submitted read (careful request read)

end Sound

/--
In a run whose submissions to Decred jobs are all plain, no two credited
submissions to one job ever have the same header.
-/
theorem workPaidOnce_of_careful (env : Environment) (events : List Event)
    (careful :
      Run.EveryStep (step env) (Careful env) History.initial events) :
    WorkPaidOnce (Run.after (step env) History.initial events) :=
  (Run.invariant_after_of_everyStep Sound.step Sound.initial careful).once

/-! ## Rolled time -/

/-- A hash function with a hash below every target. -/
def sampleEnvironment : Environment where
  hashFunction := fun _ => Vector.replicate 32 0
  buildSubmitValues := fun _ _ _ _ _ => Vector.replicate 32 0
  diffMultiplier := 1
  allowRolltime := true
  isPhi := false

def sampleTempl : YaampJobTemplate where
  ntime := hex8 0x5b000000
  nbits := hex8 0x1d00ffff
  header :=
    { version := 6
      prevblock := Vector.replicate 32 0
      merkleroot := Vector.replicate 32 0
      stakeroot := Vector.replicate 32 0
      votebits := 1
      finalstate := Vector.replicate 6 0
      voters := 5
      freshstake := 0
      revoc := 0
      poolsize := 0
      nbits := 0x1d00ffff
      sbits := 0
      height := 300000
      size := 0
      ntime := 0x5b000000
      nonce := 0
      extra := Vector.replicate 32 0
      stakever := 6 }

def sampleClient : YaampClient where
  extranonce1 := List.replicate 16 '0' ++ hex8 0x81000001
  extranonce2size := 12
  difficultyActual := 1

/-- A submission some seconds after the time of the job. -/
def sampleSubmission (ntime nonce : Nat) : Event :=
  .submit sampleClient 0x5b000010
    [['w'], ['1'], hex8 7 ++ hex8 0 ++ hex8 0x81000001, hex8 ntime,
      hex8 nonce]

/-- A job, and a submission with the time of the job. -/
def oneSubmission : List Event :=
  [.createJob (some ['D', 'C', 'R']) sampleTempl,
    sampleSubmission 0x5b000000 9]

/-- Two submissions with the time of the job. -/
theorem workPaidOnce_sameTime :
    WorkPaidOnce (Run.after (step sampleEnvironment) History.initial
      (oneSubmission ++ [sampleSubmission 0x5b000000 10])) := by
  refine workPaidOnce_of_careful sampleEnvironment _
    ⟨trivial, ?_, ?_, trivial⟩
  · intro request read job found decred
    cases read
    cases found
    exact ⟨by decide, by decide, rfl, by decide⟩
  · intro request read job found decred
    cases read
    cases found
    exact ⟨by decide, by decide, rfl, by decide⟩

instance (history : History) : Decidable (WorkPaidOnce history) :=
  inferInstanceAs (Decidable (List.Pairwise _ _))

/-- The same nonces with another time are credited again. -/
theorem not_workPaidOnce_rolledTime :
    ¬ WorkPaidOnce (Run.after (step sampleEnvironment) History.initial
      (oneSubmission ++ [sampleSubmission 0x5b000001 9])) := by
  decide +kernel

end YiimpStratum.Decred
