import YiimpStratum.Assign.Quiet

/-!
# Extranonces of the clients on one job

A nonce for a coin is the default one of the client, and the nonces of a
remote job carry a number from the table of the job, so different clients get
different nonces as long as the default ones differ and a client keeps a nonce
only where its number is reserved.
-/

namespace YiimpStratum.Assign

open YiimpStratum.Util

/-! ## A new state of one client -/

/-- The client can be served without a clash with the others. -/
structure Fits (config : Config) (server : Server) (i : Nat)
    (client : YaampClient) : Prop where
  waiting :
    ∀ job, server.job client.jobidNext = some job → job.isRemote = true →
      client.jobidNext ∉ server.waiting
  counted :
    ∀ job, server.job client.jobidNext = some job → job.isRemote = true →
      job.count ≠ 0
  distinct :
    ∀ k other, server.Serves k other → k ≠ i → client.jobidNext ≠ 0 →
      client.jobidNext = other.jobidNext →
        client.extranonce1 ≠ other.extranonce1
  default : DefaultUnused config server i client.extranonce1Default
  apart :
    ∀ jobid job, server.job jobid = some job → Live server jobid job →
      WorksOn client jobid → job.HandsOut client.extranonce1 →
        ∀ k other, server.Serves k other → k ≠ i → WorksOn other jobid →
          client.extranonce1 ≠ other.extranonce1
  reserved :
    ∀ jobid job, server.job jobid = some job → Live server jobid job →
      WorksOn client jobid → ¬ job.Spare client.extranonce1

/-- The server after a client is changed and perhaps listed. -/
def Server.put (server : Server) (i : Nat) (client : YaampClient)
    (listed : List Nat) : Server :=
  { server with
    clients := server.clients.set i client
    listed := listed }

theorem serves_put
    {server : Server} {i k : Nat} {client other : YaampClient}
    {listed : List Nat}
    (same : ∀ k ≠ i, k ∈ listed → k ∈ server.listed)
    (served : (server.put i client listed).Serves k other) :
    k = i ∧ other = client ∧ i ∈ listed ∧ client.deleted = false ∧
        client.reconnecting = false ∨
      k ≠ i ∧ server.Serves k other := by
  obtain ⟨at_k, isListed, alive, connected⟩ := served
  rcases eq_or_ne k i with rfl | different
  · rw [Server.put, List.getElem?_set] at at_k
    rw [if_pos rfl] at at_k
    split at at_k
    · rw [Option.some.injEq] at at_k
      subst at_k
      exact Or.inl ⟨rfl, rfl, isListed, alive, connected⟩
    · exact absurd at_k (by simp)
  · rw [Server.put, List.getElem?_set_ne different.symm] at at_k
    exact Or.inr ⟨different, at_k, same k different isListed, alive,
      connected⟩

/-- Of two clients that are served at most one is the changed one. -/
theorem serves_put_two
    {server : Server} {i k m : Nat} {client first second : YaampClient}
    {listed : List Nat}
    (same : ∀ k ≠ i, k ∈ listed → k ∈ server.listed)
    (different : k ≠ m)
    (served : (server.put i client listed).Serves k first)
    (otherServed : (server.put i client listed).Serves m second) :
    (first = client ∧ i ∈ listed ∧ client.deleted = false ∧
        client.reconnecting = false ∧ m ≠ i ∧ server.Serves m second) ∨
      (second = client ∧ i ∈ listed ∧ client.deleted = false ∧
        client.reconnecting = false ∧ k ≠ i ∧ server.Serves k first) ∨
      server.Serves k first ∧ server.Serves m second := by
  rcases serves_put same served with
    ⟨rfl, isFirst, isListed, alive, connected⟩ | ⟨firstOther, was⟩
  · rcases serves_put same otherServed with
      ⟨rfl, -⟩ | ⟨secondOther, otherWas⟩
    · exact absurd rfl different
    · exact Or.inl ⟨isFirst, isListed, alive, connected, secondOther,
        otherWas⟩
  · rcases serves_put same otherServed with
      ⟨-, isSecond, isListed, alive, connected⟩ | ⟨-, otherWas⟩
    · exact Or.inr (Or.inl ⟨isSecond, isListed, alive, connected,
        firstOther, was⟩)
    · exact Or.inr (Or.inr ⟨was, otherWas⟩)

theorem SearchInvariant.put
    {config : Config} {server : Server}
    (invariant : SearchInvariant config server) {i : Nat}
    {client : YaampClient} {listed : List Nat}
    (numbered : i < server.clients.length)
    (same : ∀ k ≠ i, k ∈ listed ↔ k ∈ server.listed)
    (bounded :
      client.jobidNext ≤ server.jobs.length ∧
        client.jobidSent ≤ server.jobs.length)
    (unlisted :
      i ∉ listed → client.deleted = false →
        client.jobidNext = 0 ∧ client.jobidSent = 0)
    (fits :
      i ∈ listed → client.deleted = false → client.reconnecting = false →
        Fits config server i client) :
    SearchInvariant config (server.put i client listed) := by
  have forward : ∀ k ≠ i, k ∈ listed → k ∈ server.listed :=
    fun k different => (same k different).mp
  exact
    { numbered := by
        intro k isListed
        rw [Server.put, List.length_set]
        rcases eq_or_ne k i with rfl | different
        · exact numbered
        · exact invariant.numbered k (forward k different isListed)
      unlisted := by
        intro k other at_k isUnlisted alive
        rcases eq_or_ne k i with rfl | different
        · rw [Server.put, List.getElem?_set_self numbered,
            Option.some.injEq] at at_k
          subst at_k
          exact unlisted isUnlisted alive
        · rw [Server.put, List.getElem?_set_ne different.symm] at at_k
          exact invariant.unlisted k other at_k
            (fun was => isUnlisted ((same k different).mpr was)) alive
      bounded := by
        intro k other at_k
        rcases eq_or_ne k i with rfl | different
        · rw [Server.put, List.getElem?_set_self numbered,
            Option.some.injEq] at at_k
          subst at_k
          exact bounded
        · rw [Server.put, List.getElem?_set_ne different.symm] at at_k
          exact invariant.bounded k other at_k
      positive := invariant.positive
      away := invariant.away
      waiting := by
        intro jobid waits job found remote k other served next
        rcases serves_put forward served with
          ⟨-, rfl, isListed, alive, connected⟩ | ⟨-, was⟩
        · subst next
          exact (fits isListed alive connected).waiting job found remote waits
        · exact invariant.waiting jobid waits job found remote k other was next
      counted := by
        intro jobid job found remote k other served next
        rcases serves_put forward served with
          ⟨-, rfl, isListed, alive, connected⟩ | ⟨-, was⟩
        · subst next
          exact (fits isListed alive connected).counted job found remote
        · exact invariant.counted jobid job found remote k other was next
      distinct := by
        intro k m first second served otherServed different assigned equal
        rcases serves_put_two forward different served otherServed with
          ⟨rfl, isListed, alive, connected, other, was⟩ |
            ⟨rfl, isListed, alive, connected, other, was⟩ | ⟨was, otherWas⟩
        · exact (fits isListed alive connected).distinct m second was other
            assigned equal
        · exact ((fits isListed alive connected).distinct k first was other
            (equal ▸ assigned) equal.symm).symm
        · exact invariant.distinct k m first second was otherWas different
            assigned equal
      defaults := by
        intro k m first second served otherServed different
        rcases serves_put_two forward different served otherServed with
          ⟨rfl, isListed, alive, connected, other, was⟩ |
            ⟨rfl, isListed, alive, connected, other, was⟩ | ⟨was, otherWas⟩
        · exact ((fits isListed alive connected).default (m, second)
            (Server.mem_serving.mpr was) other).symm
        · exact (fits isListed alive connected).default (k, first)
            (Server.mem_serving.mpr was) other
        · exact invariant.defaults k m first second was otherWas different
      apart := by
        intro jobid job found live k m first second served otherServed
          different works otherWorks handsOut equal
        rcases serves_put_two forward different served otherServed with
          ⟨rfl, isListed, alive, connected, other, was⟩ |
            ⟨rfl, isListed, alive, connected, other, was⟩ | ⟨was, otherWas⟩
        · exact (fits isListed alive connected).apart jobid job found live
            works handsOut m second was other otherWorks equal
        · exact (fits isListed alive connected).apart jobid job found live
            otherWorks (equal ▸ handsOut) k first was other works equal.symm
        · exact invariant.apart jobid job found live k m first second was
            otherWas different works otherWorks handsOut equal
      reserved := by
        intro jobid job found live k other served works
        rcases serves_put forward served with
          ⟨-, rfl, isListed, alive, connected⟩ | ⟨-, was⟩
        · exact (fits isListed alive connected).reserved jobid job found live
            works
        · exact invariant.reserved jobid job found live k other was works }

theorem modify_eq_set
    {clients : List YaampClient} {i : Nat} {client : YaampClient}
    (at_i : clients[i]? = some client)
    (change : YaampClient → YaampClient) :
    clients.modify i change = clients.set i (change client) := by
  obtain ⟨bound, same⟩ := List.getElem?_eq_some_iff.mp at_i
  rw [List.modify_eq_set_get change bound, List.get_eq_getElem, same]

/-- A job that is sent at login is the locked one or one for a coin. -/
theorem sentJob_cases
    {server : Server} {last : Nat} {client : YaampClient}
    (unsent : client.jobidSent = 0) {jobid : Nat} {job : YaampJob}
    (found : server.job jobid = some job)
    (sent : server.sentJob last client = jobid) :
    client.jobidLocked ≠ 0 ∧ client.jobidLocked = jobid ∨
      job.isRemote = false := by
  rw [Server.sentJob] at sent
  split at sent
  · rename_i locked
    exact Or.inl ⟨locked.1, sent⟩
  · split at sent
    · rename_i coin
      rw [sent, found, Option.any_some] at coin
      exact Or.inr (by simpa using coin)
    · exact absurd (sent.symm.trans unsent) (pos_of_job found)

theorem sentJob_le
    {server : Server} {last : Nat} {client : YaampClient}
    (sent : client.jobidSent ≤ server.jobs.length) :
    server.sentJob last client ≤ server.jobs.length := by
  have bound {jobid : Nat} {test : YaampJob → Bool}
      (found : (server.job jobid).any test = true) :
      jobid ≤ server.jobs.length := by
    rw [Option.any_eq_true] at found
    obtain ⟨job, found, -⟩ := found
    exact le_of_job found
  rw [Server.sentJob]
  split
  · rename_i locked
    exact bound locked.2
  · split
    · rename_i coin
      exact bound coin
    · exact sent

theorem handsOut_isRemote {job : YaampJob} {nonce : CString}
    (handsOut : job.HandsOut nonce) : job.isRemote = true := by
  obtain ⟨remote, source, -⟩ := YaampJob.handsOut_iff.mp handsOut
  rw [YaampJob.isRemote, source]

theorem SearchInvariant.clientAuthorize
    {config : Config} {server : Server}
    (invariant : SearchInvariant config server) {i : Nat}
    (careful : AuthorizeCareful config server i) (coinid last : Nat) :
    SearchInvariant config (server.clientAuthorize i coinid last) := by
  rw [Server.clientAuthorize]
  split
  · exact invariant
  · rename_i enters
    push Not at enters
    obtain ⟨unlisted, numbered⟩ := enters
    obtain ⟨client, at_i⟩ : ∃ client, server.clients[i]? = some client :=
      ⟨_, List.getElem?_eq_getElem numbered⟩
    rw [Server.modifyClient, modify_eq_set at_i]
    have bounds := invariant.bounded i client at_i
    apply invariant.put numbered
    · intro k different
      rw [List.mem_append, List.mem_singleton]
      exact or_iff_left different
    · exact ⟨bounds.1, sentJob_le bounds.2⟩
    · intro never
      exact absurd (List.mem_append_right _ (List.mem_singleton_self i)) never
    · intro _ alive _
      obtain ⟨next, unsent⟩ := invariant.unlisted i client at_i unlisted alive
      obtain ⟨newDefault, resumed⟩ := careful unlisted client at_i alive
      have noJob {job : YaampJob}
          (found : server.job client.jobidNext = some job) : False :=
        pos_of_job found next
      -- The client works on a job only by what it was sent.
      have sent {jobid : Nat} {job : YaampJob}
          (found : server.job jobid = some job)
          (remote : job.isRemote = true)
          (works :
            WorksOn
              { client with
                coinid := coinid
                jobidSent := server.sentJob last client } jobid) :
          client.jobidLocked ≠ 0 ∧ client.jobidLocked = jobid := by
        rcases works with assigned | sent
        · exact absurd (assigned.symm.trans next) (pos_of_job found)
        · rcases sentJob_cases unsent found sent with locked | coin
          · exact locked
          · rw [remote] at coin
            exact absurd coin (by simp)
      exact
        { waiting := fun job found => (noJob found).elim
          counted := fun job found => (noJob found).elim
          distinct := fun _ _ _ _ assigned => absurd next assigned
          default := newDefault
          apart := by
            intro jobid job found live works handsOut k other served different
              _ equal
            obtain ⟨locked, -⟩ := sent found (handsOut_isRemote handsOut) works
            exact (resumed locked).1 (k, other) (Server.mem_serving.mpr served)
              different equal.symm
          reserved := by
            intro jobid job found live works spare
            obtain ⟨locked, same⟩ :=
              sent found (handsOut_isRemote spare.handsOut) works
            subst same
            exact (resumed locked).2 job found live spare }

/-! ## Subscriptions -/

/-- The client whose nonces a subscription takes over. -/
def Server.resumed (server : Server) (notifyId : CString) :
    Option YaampClient :=
  (server.clientFindNotifyId notifyId true).bind (server.clients[·]?)

/-- What a subscription copies from the client that it resumes. -/
structure Copies (resumed : Option YaampClient)
    (copy : YaampClient → YaampClient) : Prop where
  extranonce1 :
    ∀ client, (copy client).extranonce1 =
      (resumed.elim client.extranonce1 fun client1 =>
        client1.extranonce1Reconnect)
  extranonce1Default :
    ∀ client, (copy client).extranonce1Default =
      (resumed.elim client.extranonce1Default fun client1 =>
        client1.extranonce1Default)
  kept :
    ∀ client, (copy client).jobidNext = client.jobidNext ∧
      (copy client).jobidSent = client.jobidSent ∧
        (copy client).deleted = client.deleted ∧
          (copy client).reconnecting = client.reconnecting

theorem Copies.none_id : Copies none id where
  extranonce1 := fun _ => rfl
  extranonce1Default := fun _ => rfl
  kept := fun _ => ⟨rfl, rfl, rfl, rfl⟩

/-- The number `j` is out of range when no client is found. -/
theorem resume_eq (server : Server) (i : Nat) (notifyId : CString) :
    ∃ copy j, Copies (server.resumed notifyId) copy ∧
      server.resume i notifyId =
        (server.modifyClient i copy).modifyClient j
          YaampClient.dropLocks := by
  have untouched :
      server =
        (server.modifyClient i id).modifyClient server.clients.length
          YaampClient.dropLocks := by
    rw [Server.modifyClient, Server.modifyClient, List.modify_id,
      List.modify_eq_self (le_refl _)]
  rw [Server.resumed, Server.resume]
  split
  · rename_i j found
    rw [found, Option.bind_some]
    split
    · rename_i missing
      rw [missing]
      exact ⟨id, server.clients.length, Copies.none_id, untouched⟩
    · rename_i client1 at_j
      rw [at_j]
      exact ⟨YaampClient.resume notifyId client1, j,
        ⟨fun _ => rfl, fun _ => rfl, fun _ => ⟨rfl, rfl, rfl, rfl⟩⟩, rfl⟩
  · rename_i missing
    rw [missing, Option.bind_none]
    split
    · rename_i j found
      split
      · exact ⟨id, server.clients.length, Copies.none_id, untouched⟩
      · rename_i client1 at_j
        exact ⟨YaampClient.resumeOther notifyId client1, j,
          ⟨fun _ => rfl, fun _ => rfl, fun _ => ⟨rfl, rfl, rfl, rfl⟩⟩, rfl⟩
    · exact ⟨id, server.clients.length, Copies.none_id, untouched⟩

/-- A client that is not reconnecting does not find itself. -/
theorem resumed_modifyClient
    {server : Server} {i : Nat} {client : YaampClient}
    (at_i : server.clients[i]? = some client)
    (connected : client.reconnecting = false)
    (change : YaampClient → YaampClient)
    (same : ∀ client, (change client).reconnecting = client.reconnecting)
    (notifyId : CString) :
    (server.modifyClient i change).resumed notifyId =
      server.resumed notifyId := by
  have others {k : Nat} (different : k ≠ i) :
      (server.modifyClient i change).clients[k]? = server.clients[k]? := by
    rw [Server.modifyClient, List.getElem?_modify_ne _ _ different.symm]
  have itself :
      (server.modifyClient i change).clients[i]? = some (change client) := by
    rw [Server.modifyClient, List.getElem?_modify_eq, at_i]
    rfl
  have search :
      (server.modifyClient i change).clientFindNotifyId notifyId true =
        server.clientFindNotifyId notifyId true := by
    rw [Server.clientFindNotifyId, Server.clientFindNotifyId]
    split
    · rfl
    · congr 1
      funext k
      rcases eq_or_ne k i with rfl | different
      · rw [itself, at_i, Option.any_some, Option.any_some, same, connected]
        rfl
      · rw [others different]
  rw [Server.resumed, search, Server.resumed]
  cases found : server.clientFindNotifyId notifyId true with
  | none => rfl
  | some j =>
      rw [Option.bind_some, Option.bind_some]
      apply others
      rintro rfl
      rw [Server.clientFindNotifyId] at found
      split at found
      · exact absurd found (by simp)
      · have matched := List.find?_some found
        rw [at_i, Option.any_some, connected] at matched
        exact absurd matched (by simp)

/-- The nonces after the copy are those that a subscription ends with. -/
theorem Copies.subscribedNonces_eq
    {config : Config} {server : Server} {notifyId : CString}
    {copy : YaampClient → YaampClient}
    (copies : Copies (server.resumed notifyId) copy)
    (key : CString) (difficulty : Rat) (proxy : Bool) (old : YaampClient) :
    let nonce := getNextExtraonce1 (server.extraonceCounter + 1)
    let copied :=
      copy (YaampClient.subscribe config nonce key difficulty proxy old)
    subscribedNonces config server notifyId =
      (copied.extranonce1Default, copied.extranonce1) := by
  intro nonce copied
  have resumed :
      (server.clientFindNotifyId notifyId true).bind (server.clients[·]?) =
        server.resumed notifyId :=
    rfl
  simp only [copied]
  rw [copies.extranonce1, copies.extranonce1Default, subscribedNonces, resumed]
  cases server.resumed notifyId with
  | none => rfl
  | some client1 => rfl

/-- The locks of the client `j` are dropped, which may be the client `i`. -/
theorem dropLocks_fields (i j : Nat) (client : YaampClient) :
    let unlocked := (if j = i then YaampClient.dropLocks else id) client
    unlocked.jobidNext = client.jobidNext ∧
      unlocked.jobidSent = client.jobidSent ∧
        unlocked.deleted = client.deleted ∧
          unlocked.reconnecting = client.reconnecting ∧
            unlocked.extranonce1 = client.extranonce1 ∧
              unlocked.extranonce1Default = client.extranonce1Default := by
  dsimp only
  split <;> exact ⟨rfl, rfl, rfl, rfl, rfl, rfl⟩

/-- The changes of the client `i` are one change of it. -/
theorem modify_modify_eq_set
    {clients : List YaampClient} {i : Nat} {old : YaampClient}
    (at_i : clients[i]? = some old)
    (first second unlock last : YaampClient → YaampClient) (j : Nat) :
    (((clients.modify i first).modify i second).modify j unlock).modify i
        last =
      (clients.modify j unlock).set i
        (last ((if j = i then unlock else id) (second (first old)))) := by
  have numbered := (List.getElem?_eq_some_iff.mp at_i).1
  apply List.ext_getElem?
  intro k
  rcases eq_or_ne k i with rfl | different
  · rw [List.getElem?_set_self (by rwa [List.length_modify]),
      List.getElem?_modify_eq, List.getElem?_modify,
      List.getElem?_modify_eq, List.getElem?_modify_eq, at_i]
    split <;> rfl
  · rw [List.getElem?_set_ne different.symm,
      List.getElem?_modify_ne _ _ different.symm, List.getElem?_modify,
      List.getElem?_modify_ne _ _ different.symm,
      List.getElem?_modify_ne _ _ different.symm, List.getElem?_modify]

/-- A subscription changes one client and the lock count of another. -/
theorem clientSubscribe_eq
    (config : Config) {server : Server} {i : Nat} {old : YaampClient}
    (at_i : server.clients[i]? = some old)
    (key notifyId : CString) (difficulty : Rat) (proxy : Bool) :
    ∃ j new,
      server.clientSubscribe config i key notifyId difficulty proxy =
          ({ server with
              extraonceCounter :=
                server.extraonceCounter + 1 }.modifyClient j
            YaampClient.dropLocks).put i new server.listed ∧
        new.jobidNext = old.jobidNext ∧ new.jobidSent = old.jobidSent ∧
          new.deleted = old.deleted ∧ new.reconnecting = old.reconnecting ∧
            (old.reconnecting = false →
              subscribedNonces config server notifyId =
                (new.extranonce1Default, new.extranonce1)) := by
  let nonce := getNextExtraonce1 (server.extraonceCounter + 1)
  let counted : Server :=
    { server with extraonceCounter := server.extraonceCounter + 1 }
  let subscribed := YaampClient.subscribe config nonce key difficulty proxy
  obtain ⟨copy, j, copies, resumes⟩ :=
    resume_eq (counted.modifyClient i subscribed) i notifyId
  let unlocked : YaampClient → YaampClient :=
    if j = i then YaampClient.dropLocks else id
  obtain ⟨next, sent, deleted, reconnecting, extranonce1, default⟩ :=
    dropLocks_fields i j (copy (subscribed old))
  obtain ⟨copyNext, copySent, copyDeleted, copyReconnecting⟩ :=
    copies.kept (subscribed old)
  refine ⟨j, (unlocked (copy (subscribed old))).rememberNonce, ?_,
    next.trans copyNext, sent.trans copySent, deleted.trans copyDeleted,
    reconnecting.trans copyReconnecting, fun connected => ?_⟩
  · rw [Server.clientSubscribe, resumes]
    simp only [Server.modifyClient, Server.put, counted]
    rw [modify_modify_eq_set at_i]
  · have found :
        (counted.modifyClient i subscribed).resumed notifyId =
          server.resumed notifyId :=
      @resumed_modifyClient counted i old at_i connected subscribed
        (fun _ => rfl) notifyId
    rw [found] at copies
    have taken :=
      @Copies.subscribedNonces_eq config server notifyId copy copies key
        difficulty proxy old
    rw [taken]
    exact Prod.ext default.symm extranonce1.symm

theorem modifyClient_of_none
    {server : Server} {i : Nat} (missing : server.clients[i]? = none)
    (change : YaampClient → YaampClient) :
    server.modifyClient i change = server := by
  rw [Server.modifyClient,
    List.modify_eq_self (List.getElem?_eq_none_iff.mp missing)]

theorem quiet_countedUnlock (server : Server) (counter j : Nat) :
    Quiet server
      ({ server with extraonceCounter := counter }.modifyClient j
        YaampClient.dropLocks) :=
  have unlocked :
      Quiet server (server.modifyClient j YaampClient.dropLocks) :=
    quiet_modifyClient fun _ =>
      ⟨rfl, rfl, Or.inl rfl, Or.inl rfl, id, rfl⟩
  { unlocked with }

theorem SearchInvariant.clientSubscribe
    {config : Config} {server : Server}
    (invariant : SearchInvariant config server) {i : Nat}
    {notifyId : CString}
    (careful : SubscribeCareful config server i notifyId)
    (key : CString) (difficulty : Rat) (proxy : Bool) :
    SearchInvariant config
      (server.clientSubscribe config i key notifyId difficulty proxy) := by
  cases at_i : server.clients[i]? with
  | none =>
      obtain ⟨copy, j, -, resumes⟩ :=
        resume_eq
          { server with extraonceCounter := server.extraonceCounter + 1 } i
          notifyId
      have missing (change : YaampClient → YaampClient) :=
        @modifyClient_of_none
          { server with extraonceCounter := server.extraonceCounter + 1 } i
          at_i change
      have unlocked :=
        quiet_countedUnlock server (server.extraonceCounter + 1) j
      rw [Server.clientSubscribe]
      simp only [missing, resumes]
      rw [modifyClient_of_none]
      · exact unlocked.searchInvariant invariant
      · rw [Server.modifyClient, List.getElem?_modify, at_i]
        rfl
  | some old =>
      obtain ⟨j, new, same, next, sent, deleted, reconnecting, nonces⟩ :=
        clientSubscribe_eq config at_i key notifyId difficulty proxy
      have unlocked :=
        quiet_countedUnlock server (server.extraonceCounter + 1) j
      have base := unlocked.searchInvariant invariant
      have bounds := invariant.bounded i old at_i
      rw [same]
      apply base.put
      · exact lt_of_lt_of_le (List.getElem?_eq_some_iff.mp at_i).1
          unlocked.length
      · exact fun _ _ => Iff.rfl
      · rw [next, sent]
        exact bounds
      · intro unlisted alive
        rw [next, sent]
        exact invariant.unlisted i old at_i unlisted (deleted ▸ alive)
      · intro listed alive connected
        have served : server.Serves i old :=
          ⟨at_i, listed, deleted ▸ alive, reconnecting ▸ connected⟩
        have uses := careful (i, old) (Server.mem_serving.mpr served) rfl
        rw [nonces served.2.2.2] at uses
        obtain ⟨newDefault, newNonce, notNext, notSent⟩ := uses
        have unused {k : Nat} {other : YaampClient}
            (otherServed :
              ({ server with
                extraonceCounter :=
                  server.extraonceCounter + 1 }.modifyClient j
                YaampClient.dropLocks).Serves k other)
            (different : k ≠ i) :
            new.extranonce1 ≠ other.extranonce1 := by
          obtain ⟨was, wasServed, unmoved⟩ := unlocked.serves otherServed
          rw [unmoved.extranonce1]
          exact (newNonce (k, was) (Server.mem_serving.mpr wasServed)
            different).symm
        exact
          { waiting := by
              rw [next]
              intro job found remote waits
              exact invariant.waiting old.jobidNext waits job found remote i
                old served rfl
            counted := by
              rw [next]
              intro job found remote
              exact invariant.counted old.jobidNext job found remote i old
                served rfl
            distinct := fun _ _ otherServed different _ _ =>
              unused otherServed different
            default := by
              rintro ⟨k, other⟩ member different
              obtain ⟨was, wasServed, unmoved⟩ :=
                unlocked.serves (Server.mem_serving.mp member)
              rw [unmoved.extranonce1Default]
              exact newDefault (k, was) (Server.mem_serving.mpr wasServed)
                different
            apart := fun _ _ _ _ _ _ _ _ otherServed different _ =>
              unused otherServed different
            reserved := by
              intro jobid job found live works
              rcases works with assigned | last
              · rw [next] at assigned
                subst assigned
                exact notNext job found live
              · rw [sent] at last
                subst last
                exact notSent job found live }

/-! ## Assignments -/

/-- How `job_assign_client` gives a nonce. -/
inductive Gives (config : Config) (jobid : Nat) (job : YaampJob)
    (client : YaampClient) : YaampJob → YaampClient → Prop where
  | coin (id : Nat) (source : job.source = .coind id) :
      Gives config jobid job client job (giveCoinNonce config client)
  | single (remote : YaampRemote) (source : job.source = .remote remote)
      (size : remote.nonce2size = 2) (unused : job.count = 0) :
      Gives config jobid job client job
        { client with
          extranonce1 := remote.nonce1
          extranonce2size := 2
          jobidLocked := jobid }
  | kept (remote : YaampRemote) (source : job.source = .remote remote)
      (size : remote.nonce2size ≠ 2) (sent : jobid = client.jobidSent) :
      Gives config jobid job client job { client with jobidLocked := jobid }
  | reserved (remote : YaampRemote) (subid : Subid)
      (source : job.source = .remote remote)
      (size : remote.nonce2size ≠ 2) (unsent : jobid ≠ client.jobidSent)
      (free : job.remoteSubids subid = false) :
      Gives config jobid job client
        { job with
          remoteSubids := Function.update job.remoteSubids subid true }
        { client with
          extranonce1Id := subid
          extranonce1 := YaampJob.nonceOf remote subid
          extranonce2size := remote.nonce2size - 1
          difficultyRemote := difficultyRemote remote client
          jobidLocked := jobid }

theorem reserveSubid_free
    {job : YaampJob} {own subid : Subid}
    (reserves : reserveSubid job own = some subid) :
    job.remoteSubids subid = false := by
  rw [reserveSubid] at reserves
  split at reserves
  · simpa using List.find?_some reserves
  · rename_i free
    rw [Option.some.injEq] at reserves
    rw [← reserves]
    simpa using free

/-- A client is passed over, or gets a nonce and the job. -/
theorem jobAssignClient_cases
    (config : Config) (jobid : Nat) (job : YaampJob) (client : YaampClient)
    (maxhash : Rat) :
    (jobAssignClient config jobid job client maxhash).2 = (job, client) ∨
      skipped config jobid job client maxhash = false ∧
        (∀ remote, job.source = .remote remote →
          remoteSkipped config remote job client = none) ∧
          ∃ given taken, Gives config jobid job client given taken ∧
            (jobAssignClient config jobid job client maxhash).2 =
              finishAssign jobid given taken := by
  rw [jobAssignClient]
  split
  · exact Or.inl rfl
  · rename_i assigns
    rw [Bool.not_eq_true] at assigns
    split
    · rename_i remote source
      split
      · exact Or.inl rfl
      · rename_i goes
        split
        · exact Or.inl rfl
        · rename_i given taken gives
          refine Or.inr ⟨assigns, ?_, given,
            { taken with jobidLocked := jobid }, ?_, rfl⟩
          · intro other same
            rw [source] at same
            cases same
            exact goes
          · rw [giveRemoteNonce] at gives
            split at gives
            · rename_i size
              split at gives
              · exact absurd gives (by simp)
              · rename_i unused
                cases gives
                exact Gives.single remote source size (by omega)
            · rename_i size
              split at gives
              · rename_i sent
                cases gives
                exact Gives.kept remote source size sent
              · rename_i unsent
                obtain ⟨subid, reserves, made⟩ :=
                  Option.map_eq_some_iff.mp gives
                cases made
                exact Gives.reserved remote subid source size unsent
                  (reserveSubid_free reserves)
    · rename_i id source
      refine Or.inr ⟨assigns, ?_, job, giveCoinNonce config client,
        Gives.coin id source, rfl⟩
      intro remote same
      rw [source] at same
      exact absurd same (by simp)

theorem hexByte_subid_injective {first second : Subid}
    (same :
      hexByte (UInt8.ofNat first) = hexByte (UInt8.ofNat second)) :
    first = second := by
  have bytes := congrArg binlify same
  rw [binlify_hexByte, binlify_hexByte, List.singleton_inj] at bytes
  have numbers := congrArg UInt8.toNat bytes
  have small (subid : Subid) : subid.val < 2 ^ 8 :=
    lt_trans subid.isLt (by decide)
  rw [UInt8.toNat_ofNat_of_lt' (small first),
    UInt8.toNat_ofNat_of_lt' (small second)] at numbers
  exact Fin.ext numbers

namespace Gives

variable {config : Config} {server : Server} {jobid i : Nat}
variable {job given : YaampJob} {client taken : YaampClient}

/-- What the new nonce leaves as it is. -/
theorem keeps (gives : Gives config jobid job client given taken) :
    taken.extranonce1Default = client.extranonce1Default ∧
      taken.jobidSent = client.jobidSent ∧
        taken.deleted = client.deleted ∧
          taken.reconnecting = client.reconnecting := by
  cases gives <;> exact ⟨rfl, rfl, rfl, rfl⟩

theorem grown (gives : Gives config jobid job client given taken) :
    Grown job given := by
  cases gives with
  | coin | single | kept => exact Grown.refl job
  | reserved remote subid source size unsent free =>
      refine ⟨rfl, fun other stays => ?_, id, fun _ => id⟩
      rcases eq_or_ne other subid with rfl | different
      · exact free
      · exact (Function.update_of_ne different _ _).symm.trans stays

/-- The nonce is not one of the job last sent. -/
theorem notFromSent
    (gives : Gives config jobid job client given taken)
    (goes :
      ∀ remote, job.source = .remote remote →
        remoteSkipped config remote job client = none)
    (careful : NonceCareful config server jobid job i client) :
    NotFromSent server jobid client taken.extranonce1 := by
  cases gives with
  | coin id source =>
      rw [NonceCareful, source] at careful
      exact careful.1
  | single remote source size unused =>
      rw [NonceCareful, source] at careful
      have passed := careful (goes remote source)
      rw [if_pos size] at passed
      exact passed
  | kept remote source size sent =>
      exact fun different => absurd sent.symm different
  | reserved remote subid source size unsent free =>
      rw [NonceCareful, source] at careful
      have passed := careful (goes remote source)
      rw [if_neg size, if_neg unsent] at passed
      exact passed subid

/-- No other client that works on the job has a nonce that it gives. -/
theorem apart
    (gives : Gives config jobid job client given taken)
    (invariant : SearchInvariant config server)
    (found : server.job jobid = some job) (live : Live server jobid job)
    (served : server.Serves i client)
    (handsOut : job.HandsOut taken.extranonce1) {k : Nat}
    {other : YaampClient} (otherServed : server.Serves k other)
    (different : k ≠ i) (works : WorksOn other jobid) :
    taken.extranonce1 ≠ other.extranonce1 := by
  cases gives with
  | coin id source =>
      obtain ⟨remote, isRemote, -⟩ := YaampJob.handsOut_iff.mp handsOut
      rw [source] at isRemote
      exact absurd isRemote (by simp)
  | single remote source size unused =>
      obtain ⟨same, isRemote, otherSize, -⟩ :=
        YaampJob.handsOut_iff.mp handsOut
      rw [source] at isRemote
      cases isRemote
      exact absurd size otherSize
  | kept remote source size sent =>
      exact invariant.apart jobid job found live i k client other served
        otherServed different.symm (Or.inr sent.symm) works handsOut
  | reserved remote subid source size unsent free =>
      intro equal
      apply invariant.reserved jobid job found live k other otherServed works
      rw [← equal]
      exact YaampJob.spare_iff.mpr ⟨remote, source, size, subid, free, rfl⟩

/-- No other client on the job has the nonce. -/
theorem distinct
    (gives : Gives config jobid job client given taken)
    (goes :
      ∀ remote, job.source = .remote remote →
        remoteSkipped config remote job client = none)
    (careful : NonceCareful config server jobid job i client)
    (invariant : SearchInvariant config server)
    (found : server.job jobid = some job)
    (live : job.isRemote = true → Live server jobid job)
    (served : server.Serves i client) {k : Nat} {other : YaampClient}
    (otherServed : server.Serves k other) (different : k ≠ i)
    (next : other.jobidNext = jobid) :
    taken.extranonce1 ≠ other.extranonce1 := by
  have member := Server.mem_serving.mpr otherServed
  cases gives with
  | coin id source =>
      rw [NonceCareful, source] at careful
      by_cases default :
          other.extranonce1 = config.extranonce1 other.extranonce1Default
      · rw [default]
        exact invariant.defaults i k client other served otherServed
          different.symm
      · exact (careful.2 (k, other) member different next default).symm
  | single remote source size unused =>
      have isRemote : job.isRemote = true := by
        rw [YaampJob.isRemote, source]
      exact absurd unused
        (invariant.counted jobid job found isRemote k other otherServed next)
  | kept remote source size sent =>
      have isRemote : job.isRemote = true := by
        rw [YaampJob.isRemote, source]
      rw [NonceCareful, source] at careful
      have passed := careful (goes remote source)
      rw [if_neg size, if_pos sent] at passed
      rcases passed with own | unused
      · exact invariant.apart jobid job found (live isRemote) i k client other
          served otherServed different.symm (Or.inr sent.symm)
          (Or.inl next) own
      · exact (unused (k, other) member different next).symm
  | reserved remote subid source size unsent free =>
      have isRemote : job.isRemote = true := by
        rw [YaampJob.isRemote, source]
      apply (Gives.reserved remote subid source size unsent free).apart
        invariant found (live isRemote) served _ otherServed different
        (Or.inl next)
      exact YaampJob.handsOut_iff.mpr ⟨remote, source, size, subid, rfl⟩

/-- The number of a nonce that the job gives is reserved. -/
theorem notSpare
    (gives : Gives config jobid job client given taken)
    (invariant : SearchInvariant config server)
    (found : server.job jobid = some job) (live : Live server jobid job)
    (served : server.Serves i client) :
    ¬ given.Spare taken.extranonce1 := by
  intro spare
  obtain ⟨remote', source', size', subid', free', same⟩ :=
    YaampJob.spare_iff.mp spare
  cases gives with
  | coin id source =>
      rw [source] at source'
      exact absurd source' (by simp)
  | single remote source size unused =>
      rw [source] at source'
      cases source'
      exact absurd size size'
  | kept remote source size sent =>
      exact invariant.reserved jobid job found live i client served
        (Or.inr sent.symm) spare
  | reserved remote subid source size unsent free =>
      have equal : remote = remote' := by
        have sources : job.source = .remote remote' := source'
        rw [source] at sources
        exact Source.remote.inj sources
      subst equal
      have number : subid = subid' :=
        hexByte_subid_injective (List.append_cancel_left same)
      subst number
      have marked :
          Function.update job.remoteSubids subid true subid = true :=
        Function.update_self ..
      exact absurd (marked.symm.trans free') (by simp)

end Gives

/-- The announcement of a nonce keeps it, or makes the client reconnect. -/
theorem announceNonce_cases (client : YaampClient) :
    (announceNonce client).jobidNext = client.jobidNext ∧
      (announceNonce client).deleted = client.deleted ∧
        ((announceNonce client).jobidSent = client.jobidSent ∨
          (announceNonce client).jobidSent = client.jobidNext) ∧
          ((announceNonce client).reconnecting = true ∨
            (announceNonce client).reconnecting = client.reconnecting ∧
              (announceNonce client).extranonce1 = client.extranonce1 ∧
                (announceNonce client).extranonce1Default =
                    client.extranonce1Default ∧
                  (announceNonce client).jobidSent = client.jobidSent) := by
  rw [announceNonce]
  split
  · exact ⟨rfl, rfl, Or.inl rfl, Or.inr ⟨rfl, rfl, rfl, rfl⟩⟩
  · split
    · exact ⟨rfl, rfl, Or.inl rfl, Or.inr ⟨rfl, rfl, rfl, rfl⟩⟩
    · exact ⟨rfl, rfl, Or.inr rfl, Or.inl rfl⟩

theorem modifyJob_eq
    (server : Server) (jobid : Nat) (change : YaampJob → YaampJob) :
    server.modifyJob jobid change =
      { server with jobs := (server.modifyJob jobid change).jobs } := by
  rw [Server.modifyJob]
  split <;> rfl

theorem length_modifyJob
    (server : Server) (jobid : Nat) (change : YaampJob → YaampJob) :
    (server.modifyJob jobid change).jobs.length = server.jobs.length := by
  rw [Server.modifyJob]
  split
  · rfl
  · rw [List.length_modify]

theorem modifyClient_same
    {server : Server} {i : Nat} {client : YaampClient}
    (at_i : server.clients[i]? = some client) :
    (server.modifyClient i fun _ => client) = server := by
  obtain ⟨bound, same⟩ := List.getElem?_eq_some_iff.mp at_i
  rw [Server.modifyClient, modify_eq_set at_i, ← same,
    List.set_getElem_self]

/-- The client with its new nonce fits the server with the grown job. -/
theorem Gives.fits
    {config : Config} {server : Server} {jobid i : Nat}
    {job given : YaampJob} {client taken new : YaampClient}
    (gives : Gives config jobid job client given taken)
    (goes :
      ∀ remote, job.source = .remote remote →
        remoteSkipped config remote job client = none)
    (careful : NonceCareful config server jobid job i client)
    (invariant : SearchInvariant config server)
    (found : server.job jobid = some job)
    (visited : job.isRemote = true → jobid = server.current)
    (served : server.Serves i client)
    {change : YaampJob → YaampJob}
    (source : (change job).source = given.source)
    (subids : (change job).remoteSubids = given.remoteSubids)
    (count : (change job).count ≠ 0)
    (next : new.jobidNext = jobid) (sent : new.jobidSent = client.jobidSent)
    (extranonce1 : new.extranonce1 = taken.extranonce1)
    (default : new.extranonce1Default = client.extranonce1Default) :
    Fits config (server.modifyJob jobid change) i new := by
  have changed {new : YaampJob}
      (isFound : (server.modifyJob jobid change).job jobid = some new) :
      new = change job := by
    obtain ⟨old, was, rfl⟩ := job_modifyJob isFound
    rw [if_pos rfl]
    rw [found, Option.some.injEq] at was
    rw [was]
  have others {other : Nat} (different : other ≠ jobid) {new : YaampJob}
      (isFound : (server.modifyJob jobid change).job other = some new) :
      server.job other = some new := by
    obtain ⟨old, was, rfl⟩ := job_modifyJob isFound
    rw [if_neg different]
    exact was
  have sameSource : (change job).source = job.source :=
    source.trans gives.grown.source
  have remoteLive (remote : (change job).isRemote = true) :
      Live server jobid job :=
    Or.inr (visited ((isRemote_congr sameSource).symm.trans remote))
  have unsent := gives.notFromSent goes careful
  have onlySent {other : Nat} (different : other ≠ jobid)
      (works : WorksOn new other) : client.jobidSent = other := by
    rcases works with assigned | last
    · exact absurd (assigned.symm.trans next) different
    · exact sent.symm.trans last
  rw [modifyJob_eq] at changed others ⊢
  exact
    { waiting := by
        rw [next]
        intro job' isFound remote waits
        rw [changed isFound, isRemote_congr sameSource] at remote
        exact invariant.away (visited remote ▸ waits)
      counted := by
        rw [next]
        intro job' isFound _
        rw [changed isFound]
        exact count
      distinct := by
        intro k other otherServed different _ same
        rw [extranonce1]
        exact gives.distinct goes careful invariant found
          (fun remote => Or.inr (visited remote)) served otherServed
          different (same.symm.trans next)
      default := by
        rintro ⟨k, other⟩ member different
        rw [default]
        exact (invariant.defaults i k client other served
          (Server.mem_serving.mp member) different.symm).symm
      apart := by
        intro jobid' job' isFound live works handsOut k other otherServed
          different otherWorks
        rw [extranonce1] at handsOut ⊢
        rcases eq_or_ne jobid' jobid with rfl | another
        · rw [changed isFound, handsOut_congr sameSource] at handsOut
          have remote := handsOut_isRemote handsOut
          exact gives.apart invariant found (Or.inr (visited remote)) served
            handsOut otherServed different otherWorks
        · obtain rfl := onlySent another works
          exact absurd handsOut
            (unsent another job' (others another isFound) live)
      reserved := by
        intro jobid' job' isFound live works spare
        rw [extranonce1] at spare
        rcases eq_or_ne jobid' jobid with rfl | another
        · rw [changed isFound] at spare
          have remote := handsOut_isRemote spare.handsOut
          exact gives.notSpare invariant found (remoteLive remote) served
            ((spare_congr source subids).mp spare)
        · obtain rfl := onlySent another works
          exact unsent another job' (others another isFound) live
            spare.handsOut }

theorem SearchInvariant.assignClient
    {config : Config} {server : Server}
    (invariant : SearchInvariant config server) {jobid i : Nat}
    {maxhash : Rat} (careful : AssignCareful config server jobid i maxhash)
    (visited :
      ∀ job, server.job jobid = some job → job.isRemote = true →
        jobid = server.current) :
    SearchInvariant config (server.assignClient config jobid i maxhash) := by
  rw [Server.assignClient]
  split
  · rename_i job client found at_i
    split
    · rename_i listed
      have numbered := (List.getElem?_eq_some_iff.mp at_i).1
      have bounds := invariant.bounded i client at_i
      have kept (change : YaampJob → YaampJob) :
          (server.modifyJob jobid change).clients[i]? = some client := by
        rw [modifyJob_eq]
        exact at_i
      have grows {change : YaampJob → YaampJob}
          (grown : Grown job (change job)) :
          SearchInvariant config (server.modifyJob jobid change) := by
        apply (quiet_modifyJob ?_).searchInvariant invariant
        intro other was
        rw [found, Option.some.injEq] at was
        rw [← was]
        exact grown
      rcases jobAssignClient_cases config jobid job client maxhash with
        same | ⟨goes, remoteGoes, given, taken, gives, same⟩
      · -- The client is passed over.
        simp only [same]
        rw [modifyClient_same (kept _)]
        exact grows (Grown.refl job)
      · simp only [same]
        obtain ⟨default, sent, deleted, reconnecting⟩ := gives.keeps
        obtain ⟨next, alive, sends, announced⟩ :=
          announceNonce_cases { taken with jobidNext := jobid }
        have grown :
            Grown job (finishAssign jobid given taken).1 :=
          { source := gives.grown.source
            subids := gives.grown.subids
            deleted := gives.grown.deleted
            count := fun _ _ => Nat.succ_ne_zero _ }
        rw [Server.modifyClient, modify_eq_set (kept _)]
        apply (grows grown).put
        · exact (List.getElem?_eq_some_iff.mp (kept _)).1
        · exact fun _ _ => Iff.rfl
        · rw [length_modifyJob]
          refine ⟨next.trans_le (le_of_job found), ?_⟩
          rcases sends with last | assigned
          · exact (last.trans sent).trans_le bounds.2
          · exact assigned.trans_le (le_of_job found)
        · intro unlisted
          exact absurd (by rw [modifyJob_eq]; exact listed) unlisted
        · intro _ isAlive connected
          rcases announced with reconnects | ⟨same, nonce, ownDefault, last⟩
          · exact absurd (reconnects.symm.trans connected) (by simp)
          · have served : server.Serves i client :=
              ⟨at_i, listed, (alive.trans deleted).symm.trans isAlive,
                (same.trans reconnecting).symm.trans connected⟩
            have passes :=
              careful job found (i, client) (Server.mem_serving.mpr served)
                rfl goes
            exact gives.fits remoteGoes passes invariant found
              (visited job found) served rfl rfl (Nat.succ_ne_zero _) next
              (last.trans sent) nonce (ownDefault.trans default)
    · exact invariant
  · exact invariant

/-! ## Runs -/

namespace SearchInvariant

variable {config : Config} {server : Server}

theorem initial : SearchInvariant config Server.initial where
  numbered := by simp [Server.initial]
  unlisted := by simp [Server.initial]
  bounded := by simp [Server.initial]
  positive := by simp [Server.initial]
  away := by simp [Server.initial]
  waiting := by simp [Server.initial]
  counted := by simp [Server.initial, Server.job]
  distinct := by simp [SearchSpacesDistinct, Server.Serves, Server.initial]
  defaults := by simp [Server.Serves, Server.initial]
  apart := by simp [Server.initial, Server.job]
  reserved := by simp [Server.initial, Server.job]

theorem step
    (invariant : SearchInvariant config server) {action : Action}
    (careful : Careful config server action) :
    SearchInvariant config (Assign.step config server action) := by
  cases action with
  | connect =>
      exact (quiet_connect invariant.toBookkeeping).searchInvariant invariant
  | subscribe i key notifyId difficulty proxy =>
      exact invariant.clientSubscribe careful key difficulty proxy
  | extranonceSubscribe i =>
      apply (quiet_modifyClient ?_).searchInvariant invariant
      exact fun _ => ⟨rfl, rfl, Or.inl rfl, Or.inl rfl, id, rfl⟩
  | authorize i coinid last =>
      exact invariant.clientAuthorize careful coinid last
  | measure i speed difficulty fixed =>
      apply (quiet_modifyClient ?_).searchInvariant invariant
      exact fun _ => ⟨rfl, rfl, Or.inl rfl, Or.inl rfl, id, rfl⟩
  | disconnect i =>
      apply (quiet_modifyClient ?_).searchInvariant invariant
      exact fun _ =>
        ⟨rfl, rfl, Or.inl rfl, Or.inl rfl, fun gone => Bool.noConfusion gone,
          rfl⟩
  | jobUpdate => exact invariant.jobUpdate
  | nextJob jobid canMine => exact invariant.nextJob jobid canMine
  | assignClient i maxhash =>
      exact invariant.assignClient careful fun _ _ _ => rfl
  | jobsDone => exact quiet_jobsDone.searchInvariant invariant
  | jobAssignClientsLeft jobid =>
      exact (quiet_jobAssignClientsLeft jobid).searchInvariant invariant
  | assignClientLeft jobid i maxhash =>
      rw [Assign.step, Server.assignClientLeft]
      split
      · rename_i coin
        apply invariant.assignClient (careful coin)
        intro job found remote
        rw [found, Option.any_some, remote] at coin
        exact absurd coin (by simp)
      · exact invariant
  | jobUnlockClients jobid => exact invariant.jobUnlockClients jobid
  | jobResetClients jobid => exact invariant.jobResetClients jobid
  | jobBroadcast jobid i lost =>
      exact (quiet_jobBroadcast jobid i lost).searchInvariant invariant
  | createJob old source => exact invariant.createJob old source
  | deleteJob jobid => exact invariant.deleteJob jobid
  | freeJob jobid => exact invariant.freeJob jobid
  | clientSort position =>
      exact (quiet_clientSort position).searchInvariant invariant
  | pruneClients => exact invariant.pruneClients

end SearchInvariant

/-- In every run of careful steps the search spaces are distinct. -/
theorem searchSpaces_distinct_of_careful
    (config : Config) {actions : List Action}
    (careful :
      Run.EveryStep (step config) (Careful config) Server.initial actions) :
    SearchSpacesDistinct (Run.after (step config) Server.initial actions) :=
  (Run.invariant_after_of_everyStep
    (fun _ _ invariant careful => invariant.step careful)
    (@SearchInvariant.initial config) careful).distinct

/-- A stratum that trades, where the clients may be told to reconnect. -/
def exchange : Config where
  autoexchange := true
  stratumReconnect := true
  decred := false

def rented : Source :=
  .remote
    { nonce1 := "abcd".toList, nonce2size := 4, difficultyActual := 1 }

/-- A client is told to reconnect, and another changes its nonce in place. -/
def reconnectedOnce : List Action :=
  [.connect, .connect, .connect, .createJob 0 rented,
    .createJob 0 (.coind 3), .subscribe 0 ['a'] [] 1 false,
    .authorize 0 7 0, .subscribe 2 ['c'] [] 1 false, .extranonceSubscribe 2,
    .authorize 2 7 2, .jobUpdate, .nextJob 1 true, .assignClient 0 0,
    .assignClient 2 0, .jobUnlockClients 1, .jobsDone, .jobUnlockClients 0,
    .jobBroadcast 1 2 false, .subscribe 1 ['b'] ['a'] 1 false,
    .disconnect 0, .pruneClients, .authorize 1 7 2, .jobUpdate,
    .nextJob 1 true, .assignClient 1 0, .assignClient 2 0]

set_option maxRecDepth 4000 in
theorem searchSpaces_distinct_of_careful_reconnectedOnce :
    SearchSpacesDistinct
      (Run.after (step exchange) Server.initial reconnectedOnce) :=
  searchSpaces_distinct_of_careful exchange (by decide)

/-- Two connections present the notify id of one reconnecting client. -/
def reconnectedTwice : List Action :=
  [.connect, .connect, .connect, .createJob 0 rented,
    .subscribe 0 ['a'] [] 1 false, .authorize 0 7 0, .jobUpdate,
    .nextJob 1 true, .assignClient 0 0, .jobUnlockClients 1, .jobsDone,
    .jobUnlockClients 0, .subscribe 1 ['b'] ['a'] 1 false,
    .subscribe 2 ['c'] ['a'] 1 false, .authorize 1 7 0, .authorize 2 7 0,
    .jobUpdate, .nextJob 1 true, .assignClient 1 0, .assignClient 2 0]

theorem searchSpaces_shared_reconnectedTwice :
    ¬ SearchSpacesDistinct
      (Run.after (step exchange) Server.initial reconnectedTwice) := by
  intro distinct
  have shared :
      ∃ first ∈
          (Run.after (step exchange) Server.initial
            reconnectedTwice).serving,
        ∃ second ∈
            (Run.after (step exchange) Server.initial
              reconnectedTwice).serving,
          first.1 ≠ second.1 ∧ first.2.jobidNext ≠ 0 ∧
            first.2.jobidNext = second.2.jobidNext ∧
              first.2.extranonce1 = second.2.extranonce1 := by
    decide
  obtain ⟨⟨i, client⟩, first, ⟨k, other⟩, second, different, assigned, same,
    equal⟩ := shared
  exact distinct i k client other (Server.mem_serving.mp first)
    (Server.mem_serving.mp second) different assigned same equal

end YiimpStratum.Assign
