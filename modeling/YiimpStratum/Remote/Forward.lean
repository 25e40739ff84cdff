import YiimpStratum.Remote.Jobs

/-!
# Forwarded shares

A share that is forwarded while its job is the one that the remote follows is
rebuilt by the upstream server to the coinbase that was hashed.  Five fields
have to agree: the job id, the two parts of the coinbase, the nonce of the
remote and the number of the client.  A notification changes them in steps, and
the links between them are stated for each position of `remote_thread`.
-/

namespace YiimpStratum.Remote

open YiimpStratum.Util
open YiimpStratum.Assign
  (Action Config Server Source Subid YaampClient YaampJob)

/-! ## What the upstream server and the clients have to keep to -/

/-- The job ids in force or on their way. -/
def YaampRemote.namesInUse (remote : YaampRemote) : List CString :=
  (if remote.job = 0 ∧ remote.position.betweenJobs = false then []
    else [remote.jobid]) ++
      remote.upstream.inbox.filterMap Message.jobid

/--
The texts of a notification and the nonce in force survive the copies of
`remote_thread`, and its job id is not in use.
-/
def WellFormed (remote : YaampRemote) (notify : Notify) : Prop :=
  notify.jobid.length ≤ 16 ∧ stringLower notify.jobid = notify.jobid ∧
    notify.jobid ∉ remote.namesInUse ∧
      notify.coinb1.length ≤ 1023 ∧ notify.coinb2.length ≤ 1023 ∧
        ∃ nonce1 ∈ remote.upstream.nonce1,
          nonce1.length ≤ 16 ∧ stringLower nonce1 = nonce1

instance (remote : YaampRemote) (notify : Notify) :
    Decidable (WellFormed remote notify) :=
  inferInstanceAs (Decidable (_ ∧ _))

/--
The share is one for the job that the remote follows, and it was hashed with
the nonce of the remote and the number that the client still has.
-/
def UpToDate (state : State) (i : Nat) : Prop :=
  ∀ submission ∈ state.submissions i,
    ∀ templ ∈ state.templates submission.job,
      ∀ client ∈ state.server.clients[i]?,
        (state.remotes templ.remote).ready = true →
          (state.remotes templ.remote).job = submission.job ∧
            state.alive submission.job = true ∧
              (state.remotes templ.remote).position.betweenJobs = false ∧
                submission.extranonce1 =
                  (state.remotes templ.remote).nonceOf client.extranonce1Id

instance (state : State) (i : Nat) : Decidable (UpToDate state i) :=
  inferInstanceAs (Decidable (∀ _ ∈ _, _))

/-- The condition on a step. -/
def Careful (state : State) : Event → Prop
  | .upstreamSend r (.notify notify) => WellFormed (state.remotes r) notify
  | .remoteSubmit i => UpToDate state i
  | _ => True

instance (state : State) (event : Event) : Decidable (Careful state event) := by
  cases event with
  | upstreamSend r message =>
      cases message with
      | notify notify =>
          exact
            inferInstanceAs (Decidable (WellFormed (state.remotes r) notify))
      | _ => exact isTrue trivial
  | remoteSubmit i => exact inferInstanceAs (Decidable (UpToDate state i))
  | _ => exact isTrue trivial

/-! ## Messages on their way -/

/-- The extranonce1 in force after a message. -/
def Message.tell (told : Option CString) : Message → Option CString
  | .subscribed nonce1 _ => some nonce1
  | .setExtranonce nonce1 _ => some nonce1
  | _ => told

/-- The upstream server knows the job of a notification with this nonce. -/
structure Registered (upstream : Upstream) (nonce1 : CString)
    (notify : Notify) : Prop where
  nonceLength : nonce1.length ≤ 16
  nonceLower : stringLower nonce1 = nonce1
  jobidLength : notify.jobid.length ≤ 16
  jobidLower : stringLower notify.jobid = notify.jobid
  coinb1Length : notify.coinb1.length ≤ 1023
  coinb2Length : notify.coinb2.length ≤ 1023
  found :
    upstream.findJob notify.jobid =
      some
        { jobid := notify.jobid
          nonce1 := nonce1
          coinb1 := notify.coinb1
          coinb2 := notify.coinb2 }

/--
The messages on their way lead from the nonce that was told to the one in
force, and every job among them is known with the nonce told before it.
-/
def InFlight (upstream : Upstream) :
    Option CString → List Message → Prop
  | told, [] => upstream.nonce1 = told
  | told, message :: rest =>
      (∀ notify, message = .notify notify →
        ∃ nonce1, told = some nonce1 ∧ Registered upstream nonce1 notify) ∧
          InFlight upstream (message.tell told) rest

/-- A message changes the nonce as it says. -/
theorem nonce1_announce (upstream : Upstream) (message : Message) :
    (upstream.announce message).nonce1 = message.tell upstream.nonce1 := by
  cases message <;> rfl

/-- The jobs of other numbers stay as they are. -/
theorem findJob_announce {upstream : Upstream} {message : Message}
    {jobid : CString} (other : message.jobid ≠ some jobid) :
    (upstream.announce message).findJob jobid = upstream.findJob jobid := by
  cases message with
  | notify notify =>
      rw [Upstream.announce, Upstream.findJob, List.find?_cons_of_neg]
      · rfl
      · simpa [Message.jobid] using other
  | subscribed nonce1 nonce2size => rfl
  | authorized => rfl
  | setDifficulty difficulty => rfl
  | setExtranonce nonce1 nonce2size => rfl
  | reconnect => rfl

/-- A job stays registered until a message uses its number again. -/
theorem Registered.announce {upstream : Upstream} {nonce1 : CString}
    {notify : Notify} (registered : Registered upstream nonce1 notify)
    {message : Message} (other : message.jobid ≠ some notify.jobid) :
    Registered (upstream.announce message) nonce1 notify :=
  { registered with
    found := (findJob_announce other).trans registered.found }

/-- A well-formed notification is known as soon as it is sent. -/
theorem WellFormed.registered {remote : YaampRemote} {notify : Notify}
    (wellFormed : WellFormed remote notify) :
    ∃ nonce1, remote.upstream.nonce1 = some nonce1 ∧
      Registered (remote.upstream.announce (.notify notify)) nonce1
        notify := by
  obtain ⟨jobidLength, jobidLower, -, coinb1Length, coinb2Length, nonce1,
    inForce, nonceLength, nonceLower⟩ := wellFormed
  rw [Option.mem_def] at inForce
  refine ⟨nonce1, inForce, nonceLength, nonceLower, jobidLength, jobidLower,
    coinb1Length, coinb2Length, ?_⟩
  rw [Upstream.announce, Upstream.findJob, List.find?_cons_of_pos]
  · rw [inForce]
    rfl
  · exact beq_self_eq_true notify.jobid

/-- What is in flight stays readable when a message is sent behind it. -/
theorem InFlight.send {upstream : Upstream} {message : Message}
    {inbox : List Message} {told : Option CString}
    (inFlight : InFlight upstream told inbox)
    (unused :
      ∀ jobid, message.jobid = some jobid →
        jobid ∉ inbox.filterMap Message.jobid)
    (known :
      ∀ notify, message = .notify notify →
        ∃ nonce1, upstream.nonce1 = some nonce1 ∧
          Registered (upstream.announce message) nonce1 notify) :
    InFlight (upstream.announce message) told (inbox ++ [message]) := by
  induction inbox generalizing told with
  | nil =>
      refine ⟨?_, ?_⟩
      · intro notify same
        obtain ⟨nonce1, inForce, registered⟩ := known notify same
        exact ⟨nonce1, inFlight.symm.trans inForce, registered⟩
      · rw [InFlight, nonce1_announce, inFlight]
  | cons first rest ih =>
      refine ⟨?_, ih inFlight.2 ?_⟩
      · rintro notify rfl
        obtain ⟨nonce1, inForce, registered⟩ := inFlight.1 notify rfl
        refine ⟨nonce1, inForce, registered.announce ?_⟩
        intro same
        exact unused notify.jobid same (by simp [Message.jobid])
      · intro jobid same used
        apply unused jobid same
        rw [List.filterMap_cons]
        split
        · exact used
        · exact List.mem_cons_of_mem _ used

/-- What is in flight does not depend on the unread messages of the upstream. -/
theorem inFlight_inbox (upstream : Upstream) (unread : List Message)
    (told : Option CString) (inbox : List Message) :
    InFlight { upstream with inbox := unread } told inbox ↔
      InFlight upstream told inbox := by
  induction inbox generalizing told with
  | nil =>
      exact Iff.rfl
  | cons message rest ih =>
      have same : ∀ nonce1 notify,
          Registered { upstream with inbox := unread } nonce1 notify ↔
            Registered upstream nonce1 notify := fun _ _ =>
        ⟨fun registered => { registered with found := registered.found },
          fun registered => { registered with found := registered.found }⟩
      rw [InFlight, InFlight, ih]
      simp only [same]

/-! ## The links between the fields -/

/-- The links for a position of `remote_thread`. -/
def Linked (state : State) (r : Nat) (remote : YaampRemote) :
    Position → Prop
  | .named notify =>
      remote.jobid = notify.jobid ∧
        Registered remote.upstream remote.nonce1Next notify
  | .nonced notify _ =>
      remote.jobid = notify.jobid ∧
        Registered remote.upstream remote.nonce1 notify
  | _ =>
      state.alive remote.job = true →
        ∃ templ, state.templates remote.job = some templ ∧
          templ.remote = r ∧
            remote.upstream.findJob remote.jobid =
              some
                { jobid := remote.jobid
                  nonce1 := remote.nonce1
                  coinb1 := templ.coinb1
                  coinb2 := templ.coinb2 }

/-- What careful steps keep about a remote. -/
structure Follows (state : State) (r : Nat) (remote : YaampRemote) :
    Prop where
  bounded : remote.job ≤ state.server.jobs.length
  closed :
    remote.connected = false → remote.job = 0 ∧ remote.position = .reading
  inFlight :
    ∃ told, (∀ nonce1, told = some nonce1 →
        remote.nonce1Next = nonce1.take 16) ∧
      InFlight remote.upstream told remote.upstream.inbox
  linked : Linked state r remote remote.position

/-- The coinbase of a submission is the one of its job. -/
def Submission.Built (state : State) (submission : Submission) : Prop :=
  ∃ templ, state.templates submission.job = some templ ∧
    submission.coinbase =
      templ.coinb1 ++ submission.extranonce1 ++ submission.extranonce2 ++
        templ.coinb2

/-- What careful steps keep. -/
structure ProxyInvariant (state : State) : Prop where
  follows : ∀ r, Follows state r (state.remotes r)
  numbered :
    ∀ jobid templ, state.templates jobid = some templ →
      jobid ≤ state.server.jobs.length
  built :
    ∀ i submission, state.submissions i = some submission →
      submission.Built state
  rebuilt :
    ∀ record ∈ state.forwarded, record.rebuilt = some record.hashed

/-- A change of the fields that the links do not mention. -/
theorem Follows.congr {state : State} {r : Nat} {old new : YaampRemote}
    (follows : Follows state r old) (reading : old.position = .reading)
    (job : new.job = old.job) (connected : new.connected = old.connected)
    (position : new.position = old.position) (jobid : new.jobid = old.jobid)
    (nonce1 : new.nonce1 = old.nonce1)
    (jobs : new.upstream.jobs = old.upstream.jobs)
    (inFlight :
      ∃ told, (∀ nonce1, told = some nonce1 →
          new.nonce1Next = nonce1.take 16) ∧
        InFlight new.upstream told new.upstream.inbox) :
    Follows state r new where
  bounded := by
    rw [job]
    exact follows.bounded
  closed := by
    rw [connected, job, position]
    exact follows.closed
  inFlight := inFlight
  linked := by
    have linked := follows.linked
    rw [reading] at linked
    rw [position, reading]
    intro alive
    rw [job] at alive ⊢
    rw [jobid, nonce1, Upstream.findJob, jobs]
    exact linked alive

/-! ## Steps that leave the templates alone -/

/-- A job is alive when it is listed and not deleted. -/
theorem alive_iff {state : State} {jobid : Nat} :
    state.alive jobid = true ↔
      ∃ job, state.server.job jobid = some job ∧ job.deleted = false := by
  rw [State.alive, Option.any_eq_true]
  simp

/-- The number zero is that of no job. -/
theorem not_alive_zero (state : State) : state.alive 0 ≠ true := by
  rw [Ne, alive_iff]
  rintro ⟨job, found, -⟩
  exact Assign.job_zero found

/-- The step keeps the templates and brings no deleted job back. -/
structure Frame (before after : State) : Prop where
  settled : Settled before.server after.server
  templates :
    ∀ jobid, jobid ≤ before.server.jobs.length →
      after.templates jobid = before.templates jobid

namespace Frame

variable {before after : State}

/-- A job that is alive after a step was alive before it. -/
theorem alive (frame : Frame before after) {jobid : Nat}
    (bound : jobid ≤ before.server.jobs.length)
    (alive : after.alive jobid = true) : before.alive jobid = true := by
  obtain ⟨job, found, kept⟩ := alive_iff.mp alive
  exact alive_iff.mpr (frame.settled.deleted jobid job bound found kept)

/-- The link between a remote and its job is kept. -/
theorem linked (frame : Frame before after) {r : Nat} {remote : YaampRemote}
    (bound : remote.job ≤ before.server.jobs.length) {position : Position}
    (linked : Linked before r remote position) :
    Linked after r remote position := by
  have stays :
      Linked before r remote .reading → Linked after r remote .reading := by
    intro linked alive
    obtain ⟨templ, found, rest⟩ := linked (frame.alive bound alive)
    exact ⟨templ, (frame.templates _ bound).trans found, rest⟩
  cases position with
  | reading => exact stays linked
  | named notify => exact linked
  | nonced notify changed => exact linked
  | created => exact stays linked

end Frame

/-- What a remote follows is kept by steps of others. -/
theorem Follows.frame {before after : State} {r : Nat} {remote : YaampRemote}
    (follows : Follows before r remote) (frame : Frame before after) :
    Follows after r remote where
  bounded := le_trans follows.bounded frame.settled.length
  closed := follows.closed
  inFlight := follows.inFlight
  linked := frame.linked follows.bounded follows.linked

/-- A step on one remote, when what it leaves there follows. -/
theorem ProxyInvariant.frame {before after : State}
    (invariant : ProxyInvariant before) (frame : Frame before after) {r : Nat}
    {remote : YaampRemote}
    (remotes : after.remotes = Function.update before.remotes r remote)
    (follows : Follows after r remote)
    (numbered :
      ∀ jobid templ, after.templates jobid = some templ →
        jobid ≤ after.server.jobs.length)
    (submissions : after.submissions = before.submissions)
    (forwarded : after.forwarded = before.forwarded) :
    ProxyInvariant after where
  follows := by
    intro other
    rw [remotes]
    by_cases same : other = r
    · rw [same, Function.update_self]
      exact follows
    · rw [Function.update_of_ne same]
      exact (invariant.follows other).frame frame
  numbered := numbered
  built := by
    intro i submission found
    rw [submissions] at found
    obtain ⟨templ, at_job, coinbase⟩ := invariant.built i submission found
    have bound := invariant.numbered _ templ at_job
    exact ⟨templ, (frame.templates _ bound).trans at_job, coinbase⟩
  rebuilt := by
    rw [forwarded]
    exact invariant.rebuilt

/-- A change of one remote leaves the jobs as they are. -/
theorem frame_setRemote (state : State) (r : Nat) (remote : YaampRemote) :
    Frame state (state.setRemote r remote) where
  settled := by
    constructor
    · exact (List.length_mapIdx ..).ge
    · intro jobid new _ found alive
      rw [Server.job] at found
      split at found
      · exact absurd found (by simp)
      · rename_i positive
        rw [State.setRemote, List.getElem?_mapIdx] at found
        obtain ⟨old, was, rfl⟩ := Option.map_eq_some_iff.mp found
        refine ⟨old, ?_, ?_⟩
        · rw [Server.job, if_neg positive]
          exact was
        · split at alive <;> exact alive
  templates := fun _ _ => rfl

/-- Deleting a job revives no other. -/
theorem frame_deleteJob (state : State) (jobid : Nat) :
    Frame state (state.deleteJob jobid) where
  settled := settled_deleteJob state.server jobid
  templates := fun _ _ => rfl

/-- A deleted job is not alive. -/
theorem not_alive_deleteJob (state : State) (jobid : Nat) :
    (state.deleteJob jobid).alive jobid ≠ true := by
  rw [Ne, alive_iff]
  rintro ⟨job, found, alive⟩
  obtain ⟨old, -, rfl⟩ := Assign.job_modifyJob found
  rw [if_pos rfl] at alive
  exact Bool.noConfusion alive

/-- A job stays registered when another number is sent. -/
theorem registered_send {remote : YaampRemote} {message : Message}
    {nonce1 : CString} {notify : Notify}
    (registered : Registered remote.upstream nonce1 notify)
    (other : message.jobid ≠ some notify.jobid) :
    Registered (remote.upstream.send message) nonce1 notify :=
  { registered with found := (registered.announce other).found }

/-- A message leaves the links alone, unless it reuses the job id. -/
theorem Linked.send {state : State} {r : Nat} {remote : YaampRemote}
    {position : Position} {message : Message}
    (linked : Linked state r remote position)
    (untouched :
      remote.job ≠ 0 ∨ position.betweenJobs = true →
        message.jobid ≠ some remote.jobid) :
    Linked state r
      { remote with upstream := remote.upstream.send message } position := by
  have follows :
      Linked state r remote .reading →
        Linked state r
          { remote with upstream := remote.upstream.send message }
          .reading := by
    intro linked alive
    obtain ⟨templ, at_job, owner, found⟩ := linked alive
    have busy : remote.job ≠ 0 := fun idle =>
      not_alive_zero state (idle ▸ alive)
    exact ⟨templ, at_job, owner,
      (findJob_announce (untouched (Or.inl busy))).trans found⟩
  cases position with
  | reading => exact follows linked
  | created => exact follows linked
  | named notify =>
      have other := untouched (Or.inr rfl)
      rw [linked.1] at other
      exact ⟨linked.1, registered_send linked.2 other⟩
  | nonced notify changed =>
      have other := untouched (Or.inr rfl)
      rw [linked.1] at other
      exact ⟨linked.1, registered_send linked.2 other⟩

namespace ProxyInvariant

variable {config : Config} {state : State}

/-- Before any connection there is nothing to follow. -/
theorem initial : ProxyInvariant State.initial where
  follows := fun r =>
    { bounded := le_refl _
      closed := fun _ => ⟨rfl, rfl⟩
      inFlight := ⟨none, fun _ found => absurd found (by simp), rfl⟩
      linked := fun alive => absurd alive (not_alive_zero _) }
  numbered := fun _ _ found => absurd found (by simp [State.initial])
  built := fun _ _ found => absurd found (by simp [State.initial])
  rebuilt := fun _ member => absurd member (by simp [State.initial])

/-- A remote may be changed to one that follows the jobs. -/
theorem setRemote (invariant : ProxyInvariant state) {r : Nat}
    {remote : YaampRemote} (follows : Follows state r remote) :
    ProxyInvariant (state.setRemote r remote) := by
  apply invariant.frame (frame_setRemote state r remote)
  · rfl
  · exact follows.frame (frame_setRemote state r remote)
  · intro jobid templ found
    exact
      (invariant.numbered jobid templ found).trans
        (frame_setRemote state r remote).settled.length
  · rfl
  · rfl

/-- Deleting a job keeps the invariant. -/
theorem deleteJob (invariant : ProxyInvariant state) (jobid : Nat) :
    ProxyInvariant (state.deleteJob jobid) := by
  apply invariant.frame (frame_deleteJob state jobid)
  · exact (Function.update_eq_self 0 state.remotes).symm
  · exact (invariant.follows 0).frame (frame_deleteJob state jobid)
  · intro jobid templ found
    exact
      (invariant.numbered jobid templ found).trans
        (frame_deleteJob state _).settled.length
  · rfl
  · rfl

/-! ## Steps of `remote_thread` -/

/-- A remote without a job follows a new connection. -/
theorem follows_connected {r : Nat} {remote : YaampRemote}
    (idle : remote.job = 0) (reading : remote.position = .reading)
    (fresh : remote.upstream = Upstream.connected) :
    Follows state r remote where
  bounded := by
    rw [idle]
    exact Nat.zero_le _
  closed := fun _ => ⟨idle, reading⟩
  inFlight := by
    rw [fresh]
    exact ⟨none, fun _ found => absurd found (by simp), rfl⟩
  linked := by
    rw [reading]
    intro alive
    rw [idle] at alive
    exact absurd alive (not_alive_zero state)

/-- A closed connection has no job any more. -/
theorem remoteClose (invariant : ProxyInvariant state) {r : Nat}
    {remote : YaampRemote} (reading : remote.position = .reading) :
    ProxyInvariant (state.remoteClose r remote) :=
  (invariant.deleteJob remote.job).setRemote
    (follows_connected rfl reading rfl)

/-- The remote after its connection is closed. -/
theorem remotes_remoteClose (state : State) (r : Nat) (remote : YaampRemote) :
    (state.remoteClose r remote).remotes r = remote.close :=
  Function.update_self ..

/-- A new connection starts without a job. -/
theorem remoteConnect (invariant : ProxyInvariant state) {r : Nat}
    (reading : (state.remotes r).position = .reading) (connects : Bool) :
    ProxyInvariant (state.remoteConnect r connects) := by
  rw [State.remoteConnect]
  by_cases connected : (state.remotes r).connected = true
  · rw [if_pos connected]
    have closed := @remoteClose state invariant r _ reading
    split
    · apply closed.setRemote
      rw [remotes_remoteClose]
      exact follows_connected rfl reading rfl
    · exact closed
  · rw [if_neg connected]
    split
    · have idle :=
        (invariant.follows r).closed (Bool.eq_false_of_not_eq_true connected)
      exact invariant.setRemote (follows_connected idle.1 idle.2 rfl)
    · exact invariant

/-- Closing and connecting again keeps the invariant. -/
theorem remoteReconnect (invariant : ProxyInvariant state) {r : Nat}
    {remote : YaampRemote} (reading : remote.position = .reading)
    (connects : Bool) :
    ProxyInvariant
      ((state.remoteClose r remote).remoteConnect r connects) := by
  apply (invariant.remoteClose reading).remoteConnect
  rw [remotes_remoteClose]
  exact reading

/-- The outer loop of the thread keeps the invariant. -/
theorem remoteLoop (invariant : ProxyInvariant state) (r : Nat)
    (connects : Bool) :
    ProxyInvariant (state.remoteLoop r connects) := by
  have follows := invariant.follows r
  rw [State.remoteLoop]
  split
  · exact invariant
  · rename_i idle
    have reading : (state.remotes r).position = .reading := by
      by_contra busy
      exact idle (Or.inl busy)
    split
    · apply invariant.setRemote
      exact
        { bounded := follows.bounded
          closed := follows.closed
          inFlight := follows.inFlight
          linked := follows.linked }
    · split
      · exact invariant.remoteConnect reading connects
      · split
        · exact invariant.remoteReconnect reading connects
        · apply invariant.setRemote
          exact
            { bounded := follows.bounded
              closed := follows.closed
              inFlight := follows.inFlight
              linked := follows.linked }
        · exact invariant

/-- A failed read closes the connection. -/
theorem remoteFail (invariant : ProxyInvariant state) (r : Nat) :
    ProxyInvariant (state.remoteFail r) := by
  rw [State.remoteFail]
  split
  · rename_i reads
    exact invariant.remoteClose reads.1
  · exact invariant

/-- A nonce is taken when the remote still follows its job with it. -/
theorem remoteNonce (invariant : ProxyInvariant state) {r : Nat}
    {remote : YaampRemote} {nonce1 : CString} {nonce2size : Int}
    (reading : remote.position = .reading)
    (follows : Follows state r (remote.takeNonce nonce1 nonce2size)) :
    ProxyInvariant (state.remoteNonce r nonce1 nonce2size remote) := by
  rw [State.remoteNonce]
  split
  · exact invariant.remoteClose reading
  · exact invariant.setRemote follows

/-- Reading one message keeps the invariant. -/
theorem remoteReceive (invariant : ProxyInvariant state) (r : Nat)
    (connects : Bool) :
    ProxyInvariant (state.remoteReceive r connects) := by
  have follows := invariant.follows r
  rw [State.remoteReceive]
  split
  · rename_i reads
    have reading := reads.1
    split
    · exact invariant
    · rename_i message rest inbox
      obtain ⟨told, next, inFlight⟩ := follows.inFlight
      rw [inbox] at inFlight
      obtain ⟨known, left⟩ := inFlight
      have unread :=
        (inFlight_inbox (state.remotes r).upstream rest _ rest).mpr left
      cases message with
      | subscribed nonce1 nonce2size =>
          apply invariant.remoteNonce
          · exact reading
          · refine
              follows.congr reading rfl rfl rfl rfl rfl rfl
                ⟨some nonce1, ?_, unread⟩
            rintro _ ⟨⟩
            rfl
      | authorized =>
          apply invariant.setRemote
          split
          · exact
              follows.congr reading rfl rfl rfl rfl rfl rfl
                ⟨told, next, unread⟩
          · exact
              follows.congr reading rfl rfl rfl rfl rfl rfl
                ⟨told, next, unread⟩
      | setDifficulty difficulty =>
          apply invariant.setRemote
          exact
            follows.congr reading rfl rfl rfl rfl rfl rfl
              ⟨told, next, unread⟩
      | setExtranonce nonce1 nonce2size =>
          apply invariant.remoteNonce
          · exact reading
          · refine
              follows.congr reading rfl rfl rfl rfl rfl rfl
                ⟨some nonce1, ?_, unread⟩
            rintro _ ⟨⟩
            rfl
      | notify notify =>
          apply invariant.setRemote
          obtain ⟨nonce1, rfl, registered⟩ := known notify rfl
          have copied : (state.remotes r).nonce1Next = nonce1 := by
            rw [next nonce1 rfl,
              List.take_of_length_le registered.nonceLength]
          exact
            { bounded := follows.bounded
              closed := fun disconnected =>
                absurd reads.2.2.1 (by
                  rw [show (state.remotes r).connected = false from
                    disconnected]
                  simp)
              inFlight := ⟨some nonce1, next, unread⟩
              linked := by
                constructor
                · change stringLower (notify.jobid.take 16) = notify.jobid
                  rw [List.take_of_length_le registered.jobidLength,
                    registered.jobidLower]
                · change
                    Registered _ (state.remotes r).nonce1Next notify
                  rw [copied]
                  exact { registered with found := registered.found } }
      | reconnect =>
          exact invariant.remoteReconnect reading connects
  · exact invariant

/-- The nonce that `remote_thread` copies is the one it compared. -/
theorem copied_nonce1 {remote : YaampRemote} {notify : Notify}
    (registered : Registered remote.upstream remote.nonce1Next notify) :
    remote.copyNonce.nonce1 = remote.nonce1Next := by
  rw [YaampRemote.copyNonce,
    List.take_of_length_le registered.nonceLength, registered.nonceLower]

/-- A nonce that is not marked as changed is the next one already. -/
theorem nonce1_of_unchanged {remote : YaampRemote}
    (unchanged : ¬ remote.nonceChanged = true) :
    remote.nonce1 = remote.nonce1Next := by
  by_contra different
  apply unchanged
  rw [YaampRemote.nonceChanged, bne_iff_ne.mpr different, Bool.true_or,
    Bool.true_or]

/-- The new job has the number after all others. -/
theorem length_createJob (server : Server) (old : Nat) (source : Source) :
    (server.createJob old source).jobs.length = server.jobs.length + 1 := by
  rw [jobs_createJob, List.length_append, jobs_length_modifyJob]
  rfl

/-- A remote that is done with a message is linked as before it. -/
theorem linked_done {r : Nat} {remote : YaampRemote} {done : Position}
    (finished : done = .reading ∨ done = .created)
    (linked : Linked state r remote .reading) :
    Linked state r remote done := by
  rcases finished with rfl | rfl
  · exact linked
  · exact linked

/-- A job that is created is linked to the remote. -/
theorem remoteCreateJob (invariant : ProxyInvariant state) {r : Nat}
    {notify : Notify} {changed : Bool} {done : Position}
    (position : (state.remotes r).position = .nonced notify changed)
    (finished : done = .reading ∨ done = .created) :
    ProxyInvariant
      (state.remoteCreateJob r notify
        { state.remotes r with position := done }) := by
  have follows := invariant.follows r
  have connected : (state.remotes r).connected = true := by
    by_contra disconnected
    have idle := follows.closed (Bool.eq_false_of_not_eq_true disconnected)
    rw [position] at idle
    exact Position.noConfusion idle.2
  have stays : (state.remotes r).connected ≠ false := by
    rw [connected]
    exact Bool.noConfusion
  rw [State.remoteCreateJob]
  split
  · have linked := follows.linked
    rw [position] at linked
    obtain ⟨jobid, registered⟩ := linked
    have settled :=
      settled_createJob state.server (state.remotes r).job
        (.remote (state.remotes r).seen)
    have templates : ∀ jobid, jobid ≤ state.server.jobs.length →
        Function.update state.templates (state.server.jobs.length + 1)
            (some (State.templateOf r notify)) jobid =
          state.templates jobid := fun jobid bound =>
      Function.update_of_ne (by omega) ..
    refine invariant.frame ⟨settled, templates⟩ rfl ?_ ?_ rfl rfl
    · exact
        { bounded := (length_createJob ..).ge
          closed := fun disconnected => absurd disconnected stays
          inFlight := follows.inFlight
          linked := by
            apply linked_done finished
            intro _
            refine ⟨State.templateOf r notify, Function.update_self .., rfl,
              ?_⟩
            change
              (state.remotes r).upstream.findJob (state.remotes r).jobid = _
            rw [jobid, registered.found, State.templateOf,
              List.take_of_length_le registered.coinb1Length,
              List.take_of_length_le registered.coinb2Length] }
    · intro old templ found
      rw [length_createJob]
      change Function.update state.templates _ _ old = some templ at found
      rw [Function.update_apply] at found
      split at found
      · omega
      · exact (invariant.numbered old templ found).trans (Nat.le_succ _)
  · have deleted := invariant.deleteJob (state.remotes r).job
    refine
      deleted.frame ⟨Settled.of_jobs rfl, fun _ _ => rfl⟩ rfl ?_
        deleted.numbered rfl rfl
    · exact
        { bounded := (deleted.follows r).bounded
          closed := fun disconnected => absurd disconnected stays
          inFlight := follows.inFlight
          linked :=
            linked_done finished fun alive =>
              absurd alive (not_alive_deleteJob state _) }

/-- The steps behind a message keep the invariant. -/
theorem remoteProceed (invariant : ProxyInvariant state) (r : Nat) :
    ProxyInvariant (state.remoteProceed r) := by
  have follows := invariant.follows r
  have linked := follows.linked
  rw [State.remoteProceed]
  split
  · exact invariant
  · rename_i notify position
    rw [position] at linked
    obtain ⟨jobid, registered⟩ := linked
    have busy : (state.remotes r).connected ≠ false := by
      intro disconnected
      have idle := (follows.closed disconnected).2
      rw [position] at idle
      exact Position.noConfusion idle
    split
    · apply invariant.setRemote
      exact
        { bounded := follows.bounded
          closed := fun disconnected => absurd disconnected busy
          inFlight := follows.inFlight
          linked := ⟨jobid, by
            rw [← copied_nonce1 registered] at registered
            exact registered⟩ }
    · rename_i unchanged
      apply invariant.setRemote
      exact
        { bounded := follows.bounded
          closed := fun disconnected => absurd disconnected busy
          inFlight := follows.inFlight
          linked := ⟨jobid, by
            rw [← nonce1_of_unchanged unchanged] at registered
            exact registered⟩ }
  · rename_i notify changed position
    apply invariant.remoteCreateJob position
    cases changed with
    | false => exact Or.inr rfl
    | true => exact Or.inl rfl
  · rename_i position
    rw [position] at linked
    have settled :=
      settled_jobAssignLockedClients state.server (state.remotes r).job
    have reads :
        Follows state r
          { state.remotes r with position := .reading } :=
      { bounded := follows.bounded
        closed := fun disconnected =>
          ⟨(follows.closed disconnected).1, rfl⟩
        inFlight := follows.inFlight
        linked := linked }
    refine invariant.frame ⟨settled, fun _ _ => rfl⟩ rfl ?_ ?_ rfl rfl
    · exact reads.frame ⟨settled, fun _ _ => rfl⟩
    · intro jobid templ found
      exact (invariant.numbered jobid templ found).trans settled.length

/-! ## Steps of the other threads -/

/-- Assigning clients changes neither the remotes nor their jobs. -/
theorem assign (invariant : ProxyInvariant state) (action : Action) :
    ProxyInvariant (state.assign config action) := by
  rw [State.assign]
  split
  · have settled := settled_step state.server config action
    have frame :
        Frame state
          { state with server := Assign.step config state.server action } :=
      ⟨settled, fun _ _ => rfl⟩
    apply invariant.frame frame
    · exact (Function.update_eq_self 0 state.remotes).symm
    · exact (invariant.follows 0).frame frame
    · intro jobid templ found
      exact (invariant.numbered jobid templ found).trans settled.length
    · rfl
    · rfl
  · exact invariant

/-- A submission that begins changes no remote. -/
theorem submit (invariant : ProxyInvariant state) (i jobid : Nat)
    (extranonce2 : CString) :
    ProxyInvariant (state.submit i jobid extranonce2) := by
  rw [State.submit]
  split
  · rename_i client job templ _ _ at_job _
    split
    · exact
        { follows := fun r =>
            (invariant.follows r).frame
              ⟨Settled.of_jobs rfl, fun _ _ => rfl⟩
          numbered := invariant.numbered
          built := by
            intro k submission found
            change Function.update state.submissions _ _ k = _ at found
            rw [Function.update_apply] at found
            split at found
            · cases found
              exact ⟨templ, at_job, rfl⟩
            · exact invariant.built k submission found
          rebuilt := invariant.rebuilt }
    · exact invariant
  · exact invariant

/-- A submission that ends changes no remote. -/
theorem endSubmit (invariant : ProxyInvariant state) (i : Nat) :
    ProxyInvariant (state.endSubmit i) where
  follows := fun r =>
    (invariant.follows r).frame ⟨Settled.of_jobs rfl, fun _ _ => rfl⟩
  numbered := invariant.numbered
  built := by
    intro k submission found
    change Function.update state.submissions i none k = _ at found
    rw [Function.update_apply] at found
    split at found
    · exact absurd found (by simp)
    · exact invariant.built k submission found
  rebuilt := invariant.rebuilt

/-- The number of a client moves from the extranonce1 to the extranonce2. -/
theorem nonceOf_append (remote : YaampRemote) (subid : Assign.Subid)
    (extranonce2 : CString) :
    remote.nonce1 ++ remote.extranonce2 subid extranonce2 =
      remote.nonceOf subid ++ extranonce2 := by
  rw [YaampRemote.extranonce2, YaampRemote.nonceOf]
  split
  · rfl
  · exact (List.append_assoc ..).symm

/-- The upstream rebuilds the coinbase from the job that it finds. -/
theorem rebuild_of_found {remote : YaampRemote} {coinb1 coinb2 : CString}
    (found :
      remote.upstream.findJob remote.jobid =
        some
          { jobid := remote.jobid
            nonce1 := remote.nonce1
            coinb1 := coinb1
            coinb2 := coinb2 })
    (subid : Assign.Subid) (extranonce2 : CString) :
    remote.upstream.rebuild remote.jobid
        (remote.extranonce2 subid extranonce2) =
      some (coinb1 ++ remote.nonceOf subid ++ extranonce2 ++ coinb2) := by
  rw [Upstream.rebuild, found, Option.map_some]
  rw [List.append_assoc coinb1 remote.nonce1, nonceOf_append,
    ← List.append_assoc coinb1]

/-- A share is sent with the nonce of the job that it was found for. -/
theorem remoteSubmit (invariant : ProxyInvariant state) {i : Nat}
    (upToDate : UpToDate state i) :
    ProxyInvariant (state.remoteSubmit i) := by
  rw [State.remoteSubmit]
  split
  · rename_i submission client pending at_i
    split
    · exact invariant
    · rename_i templ at_job
      dsimp only
      split
      · rename_i ready
        have ended := invariant.endSubmit i
        refine
          { follows := fun r =>
              (ended.follows r).frame ⟨Settled.of_jobs rfl, fun _ _ => rfl⟩
            numbered := ended.numbered
            built := ended.built
            rebuilt := ?_ }
        intro record member
        rcases List.mem_cons.mp member with rfl | old
        · obtain ⟨current, alive, settled, nonce⟩ :=
            upToDate submission pending templ at_job client at_i ready
          obtain ⟨built, at_built, coinbase⟩ :=
            invariant.built i submission pending
          obtain rfl : templ = built :=
            Option.some.inj (at_job.symm.trans at_built)
          have linked :
              Linked state templ.remote (state.remotes templ.remote)
                .reading := by
            have linked := (invariant.follows templ.remote).linked
            revert linked settled
            cases (state.remotes templ.remote).position <;>
              intro settled linked
            · exact linked
            · exact Bool.noConfusion settled
            · exact Bool.noConfusion settled
            · exact linked
          rw [← current] at alive
          obtain ⟨followed, at_followed, -, found⟩ := linked alive
          rw [current] at at_followed
          obtain rfl : templ = followed :=
            Option.some.inj (at_job.symm.trans at_followed)
          rw [coinbase, nonce]
          exact rebuild_of_found found client.extranonce1Id
            submission.extranonce2
        · exact invariant.rebuilt record old
      · exact invariant.endSubmit i
  · exact invariant

/-- The status in the database is not part of the invariant. -/
theorem setStatus (invariant : ProxyInvariant state) (r : Nat)
    (status : Status) : ProxyInvariant (state.setStatus r status) := by
  have follows := invariant.follows r
  rw [State.setStatus]
  split
  · refine
      invariant.frame ⟨Settled.of_jobs rfl, fun _ _ => rfl⟩ rfl ?_
        invariant.numbered rfl rfl
    exact
      { bounded := follows.bounded
        closed := follows.closed
        inFlight := follows.inFlight
        linked :=
          Frame.linked ⟨Settled.of_jobs rfl, fun _ _ => rfl⟩ follows.bounded
            follows.linked }
  · exact invariant

/-- A well-formed message of the upstream keeps the invariant. -/
theorem upstreamSend (invariant : ProxyInvariant state) {r : Nat}
    {message : Message}
    (wellFormed :
      ∀ notify, message = .notify notify →
        WellFormed (state.remotes r) notify) :
    ProxyInvariant (state.upstreamSend r message) := by
  have follows := invariant.follows r
  rw [State.upstreamSend]
  split
  · have unused : ∀ jobid, message.jobid = some jobid →
        jobid ∉ (state.remotes r).namesInUse := by
      intro jobid same
      cases message with
      | notify notify =>
          cases same
          exact (wellFormed notify rfl).2.2.1
      | _ => exact absurd same (by simp [Message.jobid])
    obtain ⟨told, next, inFlight⟩ := follows.inFlight
    have sent :
        InFlight ((state.remotes r).upstream.announce message) told
          ((state.remotes r).upstream.inbox ++ [message]) := by
      apply inFlight.send
      · exact fun jobid same used =>
          unused jobid same (List.mem_append_right _ used)
      · rintro notify rfl
        exact (wellFormed notify rfl).registered
    have untouched : (state.remotes r).job ≠ 0 ∨
        (state.remotes r).position.betweenJobs = true →
          message.jobid ≠ some (state.remotes r).jobid := by
      intro inUse same
      apply unused _ same
      rw [YaampRemote.namesInUse, if_neg]
      · exact List.mem_append_left _ (List.mem_singleton_self _)
      · rintro ⟨idle, settled⟩
        rcases inUse with busy | between
        · exact busy idle
        · exact absurd (settled.symm.trans between) Bool.noConfusion
    refine
      invariant.frame ⟨Settled.of_jobs rfl, fun _ _ => rfl⟩ rfl ?_
        invariant.numbered rfl rfl
    exact
      { bounded := follows.bounded
        closed := follows.closed
        inFlight :=
          ⟨told, next, (inFlight_inbox _ _ told _).mpr sent⟩
        linked := follows.linked.send untouched }
  · exact invariant

/-- Every careful step keeps the invariant. -/
theorem step (invariant : ProxyInvariant state) {event : Event}
    (careful : Careful state event) :
    ProxyInvariant (Remote.step config state event) := by
  cases event with
  | upstreamSend r message =>
      apply invariant.upstreamSend
      rintro notify rfl
      exact careful
  | remoteLoop r connects => exact invariant.remoteLoop r connects
  | remoteFail r => exact invariant.remoteFail r
  | remoteReceive r connects => exact invariant.remoteReceive r connects
  | remoteProceed r => exact invariant.remoteProceed r
  | setStatus r status => exact invariant.setStatus r status
  | assign action => exact invariant.assign action
  | submit i jobid extranonce2 => exact invariant.submit i jobid extranonce2
  | endSubmit i => exact invariant.endSubmit i
  | remoteSubmit i => exact invariant.remoteSubmit careful

end ProxyInvariant

/-- In every run of careful steps the forwarded shares are rebuilt. -/
theorem rebuilt_eq_hashed_of_careful (config : Config) {events : List Event}
    (careful :
      Run.EveryStep (step config) Careful State.initial events) :
    ∀ record ∈ (Run.after (step config) State.initial events).forwarded,
      record.rebuilt = some record.hashed :=
  (Run.invariant_after_of_everyStep
    (fun _ _ invariant careful => invariant.step careful)
    ProxyInvariant.initial careful).rebuilt

/-- A stratum that trades, with clients that stay connected. -/
def exchange : Config where
  autoexchange := true
  stratumReconnect := false
  decred := false

/-- A notification of the upstream server. -/
def notifyOf (jobid coinb1 : String) : Message :=
  .notify
    { jobid := jobid.toList
      coinb1 := coinb1.toList
      coinb2 := "ee".toList
      complete := true }

/-- A remote gets a job, and a client hashes a share for it. -/
def proxied : List Event :=
  [.assign .connect, .assign (.subscribe 0 ['a'] [] 1 false),
    .assign (.extranonceSubscribe 0), .assign (.authorize 0 7 0),
    .remoteLoop 0 true, .upstreamSend 0 (.subscribed "abcd".toList 4),
    .upstreamSend 0 .authorized, .upstreamSend 0 (.setDifficulty 1),
    .upstreamSend 0 (notifyOf "aa" "01"), .remoteReceive 0 true,
    .remoteReceive 0 true, .remoteLoop 0 true, .remoteReceive 0 true,
    .remoteReceive 0 true, .remoteProceed 0, .remoteProceed 0,
    .assign .jobUpdate, .assign (.nextJob 1 true),
    .assign (.assignClient 0 0), .assign .jobsDone,
    .assign (.jobBroadcast 1 0 false), .submit 0 1 "112233".toList]

/-- The share is forwarded before the next notification is read. -/
theorem rebuilt_eq_hashed_of_careful_proxied :
    (Run.after (step exchange) State.initial
        (proxied ++
          [.upstreamSend 0 (notifyOf "bb" "02"),
            .remoteSubmit 0])).forwarded.length = 1 ∧
      ∀ record ∈
          (Run.after (step exchange) State.initial
            (proxied ++
              [.upstreamSend 0 (notifyOf "bb" "02"),
                .remoteSubmit 0])).forwarded,
        record.rebuilt = some record.hashed :=
  ⟨by decide, rebuilt_eq_hashed_of_careful exchange (by decide)⟩

/-- The share is forwarded after the next notification is read. -/
theorem rebuilt_ne_hashed_notified :
    ¬ ∀ record ∈
        (Run.after (step exchange) State.initial
          (proxied ++
            [.upstreamSend 0 (notifyOf "bb" "02"), .remoteReceive 0 true,
              .remoteProceed 0, .remoteProceed 0, .remoteProceed 0,
              .remoteSubmit 0])).forwarded,
      record.rebuilt = some record.hashed := by
  decide

end YiimpStratum.Remote
