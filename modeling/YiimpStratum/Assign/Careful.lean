import Mathlib.Data.Fintype.Basic
import YiimpStratum.Assign.Clients

/-!
# Steps that give no shared extranonce

Two listed clients on one job search the same space when they have the same
extranonce.  The checks below are on the state before a step: a client that
logs in or subscribes again has nonces of its own, and a client that keeps a
nonce keeps one that no other client may get.
-/

namespace YiimpStratum.Assign

open YiimpStratum.Util

/-! ## The property -/

namespace Server

/-- A listed client that is neither deleted nor reconnecting. -/
def Serves (server : Server) (i : Nat) (client : YaampClient) : Prop :=
  server.clients[i]? = some client ∧ i ∈ server.listed ∧
    client.deleted = false ∧ client.reconnecting = false

/-- The clients that are served, with their numbers. -/
def serving (server : Server) : List (Nat × YaampClient) :=
  server.listed.filterMap fun i =>
    (server.clients[i]?.filter fun client =>
      !client.deleted && !client.reconnecting).map fun client => (i, client)

theorem mem_serving {server : Server} {i : Nat} {client : YaampClient} :
    (i, client) ∈ server.serving ↔ server.Serves i client := by
  rw [serving, List.mem_filterMap]
  constructor
  · rintro ⟨k, listed, found⟩
    obtain ⟨other, kept, same⟩ := Option.map_eq_some_iff.mp found
    rw [Option.filter_eq_some_iff] at kept
    rw [Prod.mk.injEq] at same
    obtain ⟨rfl, rfl⟩ := same
    obtain ⟨at_k, alive⟩ := kept
    rw [Bool.and_eq_true, Bool.not_eq_true', Bool.not_eq_true'] at alive
    exact ⟨at_k, listed, alive.1, alive.2⟩
  · rintro ⟨at_i, listed, alive, connected⟩
    refine ⟨i, listed, ?_⟩
    rw [at_i, Option.map_eq_some_iff]
    refine ⟨client, ?_, rfl⟩
    rw [Option.filter_eq_some_iff]
    exact ⟨rfl, by simp [alive, connected]⟩

end Server

/-- Different clients on one job have different extranonces. -/
def SearchSpacesDistinct (server : Server) : Prop :=
  ∀ i k client other, server.Serves i client → server.Serves k other →
    i ≠ k → client.jobidNext ≠ 0 → client.jobidNext = other.jobidNext →
      client.extranonce1 ≠ other.extranonce1

/-! ## Nonces of a remote job -/

namespace YaampJob

/-- The job gives this nonce to the client with some number. -/
def HandsOut (job : YaampJob) (nonce : CString) : Prop :=
  match job with
  | { source := .coind _, .. } => False
  | { source := .remote remote, .. } =>
      remote.nonce2size ≠ 2 ∧ ∃ subid, nonce = nonceOf remote subid

/-- The job may still give this nonce, whose number is not reserved. -/
def Spare (job : YaampJob) (nonce : CString) : Prop :=
  match job with
  | { source := .coind _, .. } => False
  | { source := .remote remote, remoteSubids, .. } =>
      remote.nonce2size ≠ 2 ∧
        ∃ subid, remoteSubids subid = false ∧ nonce = nonceOf remote subid

instance (job : YaampJob) (nonce : CString) :
    Decidable (job.HandsOut nonce) :=
  match job with
  | { source := .coind _, .. } => inferInstanceAs (Decidable False)
  | { source := .remote remote, .. } =>
      inferInstanceAs
        (Decidable
          (remote.nonce2size ≠ 2 ∧ ∃ subid, nonce = nonceOf remote subid))

instance (job : YaampJob) (nonce : CString) : Decidable (job.Spare nonce) :=
  match job with
  | { source := .coind _, .. } => inferInstanceAs (Decidable False)
  | { source := .remote remote, remoteSubids, .. } =>
      inferInstanceAs
        (Decidable
          (remote.nonce2size ≠ 2 ∧
            ∃ subid, remoteSubids subid = false ∧
              nonce = nonceOf remote subid))

theorem handsOut_iff {job : YaampJob} {nonce : CString} :
    job.HandsOut nonce ↔
      ∃ remote, job.source = .remote remote ∧ remote.nonce2size ≠ 2 ∧
        ∃ subid, nonce = nonceOf remote subid := by
  obtain ⟨source⟩ := job
  cases source with
  | coind id => simp [HandsOut]
  | remote remote => simp [HandsOut]

theorem spare_iff {job : YaampJob} {nonce : CString} :
    job.Spare nonce ↔
      ∃ remote, job.source = .remote remote ∧ remote.nonce2size ≠ 2 ∧
        ∃ subid, job.remoteSubids subid = false ∧
          nonce = nonceOf remote subid := by
  obtain ⟨source⟩ := job
  cases source with
  | coind id => simp [Spare]
  | remote remote => simp [Spare]

theorem Spare.handsOut {job : YaampJob} {nonce : CString}
    (spare : job.Spare nonce) : job.HandsOut nonce := by
  obtain ⟨remote, source, size, subid, -, same⟩ := spare_iff.mp spare
  exact handsOut_iff.mpr ⟨remote, source, size, subid, same⟩

end YaampJob

/-! ## Careful steps -/

section Careful

variable (config : Config) (server : Server)

/-- The job is not deleted, or `job_update` assigns clients to it. -/
def Live (jobid : Nat) (job : YaampJob) : Prop :=
  job.deleted = false ∨ jobid = server.current

instance (jobid : Nat) (job : YaampJob) :
    Decidable (Live server jobid job) :=
  inferInstanceAs (Decidable (_ ∨ _))

/-- No other client that is served has this default nonce. -/
def DefaultUnused (i : Nat) (default : CString) : Prop :=
  ∀ other ∈ server.serving, other.1 ≠ i →
    config.extranonce1 other.2.extranonce1Default ≠
      config.extranonce1 default

/-- No other client that is served has this nonce. -/
def NonceUnused (i : Nat) (nonce : CString) : Prop :=
  ∀ other ∈ server.serving, other.1 ≠ i → other.2.extranonce1 ≠ nonce

/-- If the nonce is one of a live job, its number is reserved there. -/
def NotSpare (jobid : Nat) (nonce : CString) : Prop :=
  ∀ job ∈ server.job jobid, Live server jobid job → ¬ job.Spare nonce

/-- The live job last sent to a client, when another, has not this nonce. -/
def NotFromSent (jobid : Nat) (client : YaampClient) (nonce : CString) :
    Prop :=
  client.jobidSent ≠ jobid →
    ∀ job ∈ server.job client.jobidSent,
      Live server client.jobidSent job → ¬ job.HandsOut nonce

/-- The default nonce and the nonce that a subscription ends with. -/
def subscribedNonces (notifyId : CString) : CString × CString :=
  match (server.clientFindNotifyId notifyId true).bind
      (server.clients[·]?) with
  | some client1 => (client1.extranonce1Default, client1.extranonce1Reconnect)
  | none =>
      let nonce := getNextExtraonce1 (server.extraonceCounter + 1)
      (nonce, config.extranonce1 nonce)

/-- A listed client subscribes again only with nonces of its own. -/
def SubscribeCareful (i : Nat) (notifyId : CString) : Prop :=
  let nonces := subscribedNonces config server notifyId
  ∀ entry ∈ server.serving, entry.1 = i →
    DefaultUnused config server i nonces.1 ∧
      NonceUnused server i nonces.2 ∧
        NotSpare server entry.2.jobidNext nonces.2 ∧
          NotSpare server entry.2.jobidSent nonces.2

/--
A client that logs in has a default nonce of its own; if it takes up the job
of a reconnecting client, so is its nonce, with a reserved number.
-/
def AuthorizeCareful (i : Nat) : Prop :=
  i ∉ server.listed →
    ∀ client ∈ server.clients[i]?, client.deleted = false →
      DefaultUnused config server i client.extranonce1Default ∧
        (client.jobidLocked ≠ 0 →
          NonceUnused server i client.extranonce1 ∧
            NotSpare server client.jobidLocked client.extranonce1)

/-- The part of `AssignCareful` about the nonce that the client gets. -/
def NonceCareful (jobid : Nat) (job : YaampJob) (i : Nat)
    (client : YaampClient) : Prop :=
  match job.source with
  | .coind _ =>
      let nonce := config.extranonce1 client.extranonce1Default
      NotFromSent server jobid client nonce ∧
        -- A client may have left its default nonce by a subscription.
        ∀ other ∈ server.serving, other.1 ≠ i →
          other.2.jobidNext = jobid →
            other.2.extranonce1 ≠
                config.extranonce1 other.2.extranonce1Default →
              other.2.extranonce1 ≠ nonce
  | .remote remote =>
      remoteSkipped config remote job client = none →
        if remote.nonce2size = 2 then
          NotFromSent server jobid client remote.nonce1
        else if jobid = client.jobidSent then
          -- The client keeps its nonce.
          job.HandsOut client.extranonce1 ∨
            ∀ other ∈ server.serving, other.1 ≠ i →
              other.2.jobidNext = jobid →
                other.2.extranonce1 ≠ client.extranonce1
        else
          ∀ subid,
            NotFromSent server jobid client (YaampJob.nonceOf remote subid)

/-- A client gets or keeps a nonce that fits the other jobs and clients. -/
def AssignCareful (jobid i : Nat) (maxhash : Rat) : Prop :=
  ∀ job ∈ server.job jobid, ∀ entry ∈ server.serving, entry.1 = i →
    skipped config jobid job entry.2 maxhash = false →
      NonceCareful config server jobid job i entry.2

/-- The step does not lead to a nonce that another client may have. -/
def Careful : Action → Prop
  | .subscribe i _ notifyId _ _ => SubscribeCareful config server i notifyId
  | .authorize i _ _ => AuthorizeCareful config server i
  | .assignClient i maxhash =>
      AssignCareful config server server.current i maxhash
  | .assignClientLeft jobid i maxhash =>
      (server.job jobid).any (fun job => !job.isRemote) = true →
        AssignCareful config server jobid i maxhash
  | _ => True

instance (i : Nat) (default : CString) :
    Decidable (DefaultUnused config server i default) :=
  inferInstanceAs (Decidable (∀ other ∈ server.serving, _))

instance (i : Nat) (nonce : CString) :
    Decidable (NonceUnused server i nonce) :=
  inferInstanceAs (Decidable (∀ other ∈ server.serving, _))

instance (jobid : Nat) (nonce : CString) :
    Decidable (NotSpare server jobid nonce) :=
  inferInstanceAs (Decidable (∀ job ∈ server.job jobid, _))

instance (jobid : Nat) (client : YaampClient) (nonce : CString) :
    Decidable (NotFromSent server jobid client nonce) :=
  inferInstanceAs (Decidable (_ → _))

instance (i : Nat) (notifyId : CString) :
    Decidable (SubscribeCareful config server i notifyId) :=
  inferInstanceAs (Decidable (∀ entry ∈ server.serving, _))

instance (i : Nat) : Decidable (AuthorizeCareful config server i) :=
  inferInstanceAs (Decidable (_ → ∀ client ∈ server.clients[i]?, _))

instance (jobid : Nat) (job : YaampJob) (i : Nat) (client : YaampClient) :
    Decidable (NonceCareful config server jobid job i client) :=
  match job with
  | { source := .coind _, .. } => inferInstanceAs (Decidable (_ ∧ _))
  | { source := .remote _, .. } => inferInstanceAs (Decidable (_ → ite _ _ _))

instance (jobid i : Nat) (maxhash : Rat) :
    Decidable (AssignCareful config server jobid i maxhash) :=
  inferInstanceAs (Decidable (∀ job ∈ server.job jobid, _))

instance (action : Action) : Decidable (Careful config server action) :=
  match action with
  | .subscribe i _ notifyId _ _ =>
      inferInstanceAs (Decidable (SubscribeCareful config server i notifyId))
  | .authorize i _ _ =>
      inferInstanceAs (Decidable (AuthorizeCareful config server i))
  | .assignClient i maxhash =>
      inferInstanceAs
        (Decidable (AssignCareful config server server.current i maxhash))
  | .assignClientLeft jobid i maxhash =>
      inferInstanceAs
        (Decidable (_ → AssignCareful config server jobid i maxhash))
  | .connect | .extranonceSubscribe _ | .measure .. | .disconnect _
  | .jobUpdate | .nextJob .. | .jobsDone | .jobAssignClientsLeft _
  | .jobUnlockClients _ | .jobResetClients _ | .jobBroadcast ..
  | .createJob .. | .deleteJob _ | .freeJob _ | .clientSort _
  | .pruneClients => isTrue trivial

end Careful

end YiimpStratum.Assign
