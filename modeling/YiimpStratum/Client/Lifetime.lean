import Mathlib.Logic.Function.Iterate
import YiimpStratum.Library.Run
import YiimpStratum.Object

/-!
# The life of a client object

Every connection has a `client_thread`, which allocates the client, serves its
requests and runs its exit code.  The other threads mark listed clients as
deleted, and the pass of `object_prune` frees the marked ones.  The steps of
all threads interleave in any order.

The exit code looks the client up in the list: a listed client is only marked,
an unlisted one is freed at once.  A pass that frees a client whose thread
still runs leaves the thread with a freed object, which it then takes for one
that was never listed.

The search of a client by its notify id and the use of the client found are
one step here, and so are the passes over the list under its lock.
-/

namespace YiimpStratum.Client

/-! ## Clients -/

/-- The position of a `client_thread`: the request loop, then the exit code. -/
inductive ClientThread where
  | requests
  | leaving
  | finding
  | found
  | marking
  | notFound
  | closed
  | finished
  deriving DecidableEq

/--
`YAAMP_CLIENT`, whether it is in `g_list_client`, its thread, how often it was
freed, and whether its thread used it after that.
-/
structure YaampClient extends YaampObject where
  listed : Bool
  thread : ClientThread
  freed : Nat
  usedAfterFree : Bool
  deriving DecidableEq

namespace YaampClient

/-- A client after its allocation. -/
def connected : YaampClient where
  toYaampObject := YaampObject.zeroed
  listed := false
  thread := .requests
  freed := 0
  usedAfterFree := false

def setHeader (header : YaampObject) (client : YaampClient) : YaampClient :=
  { client with toYaampObject := header }

/-- The thread reads or writes its client. -/
def use (client : YaampClient) : YaampClient :=
  { client with
    usedAfterFree := client.usedAfterFree || decide (0 < client.freed) }

/-! ## Steps of the thread -/

/-- One iteration of the request loop that continues it. -/
def request (client : YaampClient) : YaampClient :=
  if client.thread = .requests then client.use else client

/-- `client_authorize`, with a user that is accepted. -/
def authorize (client : YaampClient) : YaampClient :=
  if client.thread = .requests then
    if client.listed then
      { client.use with thread := .leaving }
    else
      { client.use with listed := true }
  else
    client

/-- An iteration of the request loop that breaks it. -/
def hangUp (client : YaampClient) : YaampClient :=
  if client.thread = .requests then
    { client.use with thread := .leaving }
  else
    client

/-- The next step of the exit code. -/
def exit (client : YaampClient) : YaampClient :=
  match client.thread with
  | .requests => client
  | .leaving => { client.use with thread := .finding }
  | .finding =>
      -- `Find` compares pointers and does not read the client.
      if client.listed then
        { client with thread := .found }
      else
        { client with thread := .notFound }
  | .found => { client.use with thread := .marking }
  | .marking =>
      { client.use with
        toYaampObject := client.toYaampObject.delete
        thread := .finished }
  | .notFound => { client.use with thread := .closed }
  | .closed =>
      { client with
        freed := client.freed + 1
        thread := .finished }
  | .finished => client

/-! ## Steps of other threads -/

/-- `object_delete` by a pass over the list that skips deleted clients. -/
def mark (client : YaampClient) : YaampClient :=
  if client.listed then
    client.setHeader client.toYaampObject.delete
  else
    client

/-- The lock that `job_assign_client` takes before a reconnection. -/
def lockForReconnect (client : YaampClient) : YaampClient :=
  if client.listed && !client.deleted then
    client.setHeader
      { client.toYaampObject with
        lockCount := client.lockCount + 1
        unlock := true }
  else
    client

/-- The lock is dropped when a subscription names the notify id. -/
def takeOver (client : YaampClient) : YaampClient :=
  if client.listed then
    client.setHeader { client.toYaampObject with lockCount := 0 }
  else
    client

/-- The iteration of `object_prune` with `client_delete`. -/
def prune (client : YaampClient) : YaampClient :=
  if client.listed then
    match pruneStep toYaampObject setHeader client with
    | some kept => kept
    | none =>
        { client with
          listed := false
          freed := client.freed + 1 }
  else
    client

variable {client : YaampClient}

theorem prune_of_unlisted (unlisted : client.listed = false) :
    client.prune = client := by
  simp [prune, unlisted]

theorem prune_of_prunable
    (listed : client.listed = true) (prunable : client.prunable = true) :
    client.prune =
      { client with
        listed := false
        freed := client.freed + 1 } := by
  simp [prune, listed, pruneStep, prunable]

theorem prune_of_kept
    (listed : client.listed = true) (kept : client.prunable = false) :
    client.prune = client.setHeader client.release := by
  simp [prune, listed, pruneStep, kept]

end YaampClient

/-! ## The server -/

/-- A step of one of the threads; clients are numbered by their connection. -/
inductive Action where
  | connect
  | request (i : Nat)
  | authorize (i : Nat)
  | subscribe (i other : Nat)
  | hangUp (i : Nat)
  | exit (i : Nat)
  | jobBroadcast (i : Nat)
  | dbUpdateWorkers (i : Nat)
  | jobAssignClient (i : Nat)
  | objectPrune
  deriving DecidableEq

/-- All clients that were ever allocated. -/
abbrev Clients := List YaampClient

def step (clients : Clients) : Action → Clients
  | .connect => clients ++ [YaampClient.connected]
  | .request i => clients.modify i YaampClient.request
  | .authorize i => clients.modify i YaampClient.authorize
  | .subscribe i other =>
      (clients.modify i YaampClient.request).modify other
        YaampClient.takeOver
  | .hangUp i => clients.modify i YaampClient.hangUp
  | .exit i => clients.modify i YaampClient.exit
  | .jobBroadcast i => clients.modify i YaampClient.mark
  | .dbUpdateWorkers i => clients.modify i YaampClient.mark
  | .jobAssignClient i => clients.modify i YaampClient.lockForReconnect
  | .objectPrune => clients.map YaampClient.prune

/-- The pass frees only clients whose thread is finished. -/
def PrunesFinished (clients : Clients) : Action → Prop
  | .objectPrune =>
      ∀ client ∈ clients, client.listed = true → client.prunable = true →
        client.thread = .finished
  | _ => True

instance (clients : Clients) (action : Action) :
    Decidable (PrunesFinished clients action) :=
  match action with
  | .objectPrune => List.decidableBAll _ _
  | .connect | .request _ | .authorize _ | .subscribe _ _ | .hangUp _
  | .exit _ | .jobBroadcast _ | .dbUpdateWorkers _ | .jobAssignClient _ =>
      isTrue trivial

/-! ## Ownership -/

/--
Who frees the client: the next pass while it is listed, its thread when it was
never listed, and nobody after it was freed.
-/
structure Owned (client : YaampClient) : Prop where
  freed :
    client.freed = 0 ∨
      client.freed = 1 ∧ client.listed = false ∧ client.thread = .finished
  unused : client.usedAfterFree = false
  found :
    client.thread = .found ∨ client.thread = .marking →
      client.listed = true
  notFound :
    client.thread = .notFound ∨ client.thread = .closed →
      client.listed = false
  finished :
    client.thread = .finished →
      client.freed = 1 ∨ client.listed = true ∧ client.deleted = true
  locked :
    0 ≤ client.lockCount ∧ (client.lockCount ≠ 0 → client.unlock = true)

namespace Owned

variable {client : YaampClient}

theorem connected : Owned YaampClient.connected := by
  constructor <;> simp [YaampClient.connected, YaampObject.zeroed]

/-- A thread that is not finished uses an object that was not freed. -/
theorem use_eq (owned : Owned client) (running : client.thread ≠ .finished) :
    client.use = client := by
  have kept : client.freed = 0 := by
    rcases owned.freed with zero | ⟨-, -, done⟩
    · exact zero
    · exact absurd done running
  have unchanged :
      (client.usedAfterFree || decide (0 < client.freed)) =
        client.usedAfterFree := by
    simp [kept]
  rw [YaampClient.use, unchanged]

theorem request (owned : Owned client) : Owned client.request := by
  rw [YaampClient.request]
  split
  · rename_i serving
    rw [owned.use_eq (by simp [serving])]
    exact owned
  · exact owned

theorem authorize (owned : Owned client) : Owned client.authorize := by
  rw [YaampClient.authorize]
  split
  · rename_i serving
    have alive := owned.freed
    rw [owned.use_eq (by simp [serving])]
    split
    · exact
        { owned with
          freed := by simpa [serving] using alive
          found := by simp
          notFound := by simp
          finished := by simp }
    · exact
        { owned with
          freed := by simpa [serving] using alive
          found := by simp
          notFound := by simp [serving]
          finished := by simp [serving] }
  · exact owned

theorem hangUp (owned : Owned client) : Owned client.hangUp := by
  rw [YaampClient.hangUp]
  split
  · rename_i serving
    have alive := owned.freed
    rw [owned.use_eq (by simp [serving])]
    exact
      { owned with
        freed := by simpa [serving] using alive
        found := by simp
        notFound := by simp
        finished := by simp }
  · exact owned

/-- Every step of the exit code keeps the ownership. -/
theorem exit (owned : Owned client) : Owned client.exit := by
  have alive := owned.freed
  rw [YaampClient.exit]
  cases position : client.thread with
  | requests =>
      exact owned
  | leaving =>
      rw [position] at alive
      simp only [owned.use_eq (by simp [position])]
      exact
        { owned with
          freed := by simpa using alive
          found := by simp
          notFound := by simp
          finished := by simp }
  | finding =>
      rw [position] at alive
      simp only
      split
      · rename_i listed
        exact
          { owned with
            freed := by simpa using alive
            found := fun _ => listed
            notFound := by simp
            finished := by simp }
      · rename_i unlisted
        exact
          { owned with
            freed := by simpa using alive
            found := by simp
            notFound := fun _ => by simpa using unlisted
            finished := by simp }
  | found =>
      rw [position] at alive
      simp only [owned.use_eq (by simp [position])]
      exact
        { owned with
          freed := by simpa using alive
          found := fun _ => owned.found (Or.inl position)
          notFound := by simp
          finished := by simp }
  | marking =>
      rw [position] at alive
      simp only [owned.use_eq (by simp [position])]
      exact
        { owned with
          freed := Or.inl (by simpa using alive)
          found := by simp
          notFound := by simp
          finished := fun _ =>
            Or.inr ⟨owned.found (Or.inr position), rfl⟩ }
  | notFound =>
      rw [position] at alive
      simp only [owned.use_eq (by simp [position])]
      exact
        { owned with
          freed := by simpa using alive
          found := by simp
          notFound := fun _ => owned.notFound (Or.inl position)
          finished := by simp }
  | closed =>
      rw [position] at alive
      have kept : client.freed = 0 := by
        simpa using alive
      exact
        { owned with
          freed :=
            Or.inr
              ⟨by rw [kept], owned.notFound (Or.inr position), rfl⟩
          found := by simp
          notFound := by simp
          finished := fun _ => Or.inl (by rw [kept]) }
  | finished =>
      exact owned

/-- Marking a listed client as deleted leaves it to the next pass. -/
theorem mark (owned : Owned client) : Owned client.mark := by
  rw [YaampClient.mark]
  split
  · rename_i listed
    exact
      { owned with
        finished := fun _ => Or.inr ⟨listed, rfl⟩ }
  · exact owned

theorem lockForReconnect (owned : Owned client) :
    Owned client.lockForReconnect := by
  rw [YaampClient.lockForReconnect]
  split
  · have unlocked := owned.locked.1
    exact
      { owned with
        locked := ⟨Int.add_nonneg unlocked (by decide), fun _ => rfl⟩ }
  · exact owned

theorem takeOver (owned : Owned client) : Owned client.takeOver := by
  rw [YaampClient.takeOver]
  split
  · exact
      { owned with
        locked := ⟨Int.le_refl 0, fun locked => absurd rfl locked⟩ }
  · exact owned

/-- A pass only lowers a lock that is released by passes. -/
theorem release_locked {object : YaampObject}
    (locked :
      0 ≤ object.lockCount ∧
        (object.lockCount ≠ 0 → object.unlock = true)) :
    0 ≤ object.release.lockCount ∧
      (object.release.lockCount ≠ 0 → object.release.unlock = true) := by
  rw [YaampObject.release]
  split
  · rename_i held
    have lower : 0 ≤ object.lockCount - 1 := by
      omega
    exact ⟨lower, fun _ => held.2⟩
  · exact locked

/-- A pass that frees no client of a running thread keeps the ownership. -/
theorem prune
    (owned : Owned client)
    (careful :
      client.listed = true → client.prunable = true →
        client.thread = .finished) :
    Owned client.prune := by
  cases listed : client.listed with
  | false =>
      rw [YaampClient.prune_of_unlisted listed]
      exact owned
  | true =>
      cases prunable : client.prunable with
      | true =>
          have done := careful listed prunable
          have kept : client.freed = 0 := by
            rcases owned.freed with zero | ⟨-, unlisted, -⟩
            · exact zero
            · exact absurd listed (by simp [unlisted])
          rw [YaampClient.prune_of_prunable listed prunable]
          exact
            { owned with
              freed := Or.inr ⟨by rw [kept], rfl, done⟩
              found := by simp [done]
              notFound := by simp [done]
              finished := fun _ => Or.inl (by rw [kept]) }
      | false =>
          rw [YaampClient.prune_of_kept listed prunable]
          exact
            { owned with
              finished := fun finished => by
                simpa [YaampClient.setHeader] using owned.finished finished
              locked := release_locked owned.locked }

end Owned

/-! ## Runs -/

theorem forall_mem_modify
    {property : YaampClient → Prop} {clients : Clients} {i : Nat}
    {change : YaampClient → YaampClient}
    (before : ∀ client ∈ clients, property client)
    (kept : ∀ client, property client → property (change client)) :
    ∀ client ∈ clients.modify i change, property client := by
  intro client listed
  obtain ⟨j, found⟩ := List.mem_iff_getElem?.mp listed
  rw [List.getElem?_modify, Option.map_eq_map,
    Option.map_eq_some_iff] at found
  obtain ⟨old, oldFound, changed⟩ := found
  have oldHolds := before old (List.mem_of_getElem? oldFound)
  rw [← changed]
  split
  · exact kept old oldHolds
  · exact oldHolds

/-- A step that frees no client of a running thread keeps all ownerships. -/
theorem owned_step
    (clients : Clients) (action : Action)
    (owned : ∀ client ∈ clients, Owned client)
    (careful : PrunesFinished clients action) :
    ∀ client ∈ step clients action, Owned client := by
  cases action with
  | connect =>
      intro client listed
      rcases List.mem_append.mp listed with before | new
      · exact owned client before
      · rw [List.mem_singleton.mp new]
        exact Owned.connected
  | request i =>
      exact forall_mem_modify owned fun _ => Owned.request
  | authorize i =>
      exact forall_mem_modify owned fun _ => Owned.authorize
  | subscribe i other =>
      exact
        forall_mem_modify
          (forall_mem_modify owned fun _ => Owned.request)
          fun _ => Owned.takeOver
  | hangUp i =>
      exact forall_mem_modify owned fun _ => Owned.hangUp
  | exit i =>
      exact forall_mem_modify owned fun _ => Owned.exit
  | jobBroadcast i =>
      exact forall_mem_modify owned fun _ => Owned.mark
  | dbUpdateWorkers i =>
      exact forall_mem_modify owned fun _ => Owned.mark
  | jobAssignClient i =>
      exact forall_mem_modify owned fun _ => Owned.lockForReconnect
  | objectPrune =>
      intro client listed
      obtain ⟨old, oldListed, rfl⟩ := List.mem_map.mp listed
      exact (owned old oldListed).prune (careful old oldListed)

/-- The client is freed by the passes that follow, one for each lock on it. -/
theorem freed_after_prunes
    {client : YaampClient} (owned : Owned client)
    (finished : client.thread = .finished) {locks : Nat}
    (held : client.lockCount = locks) :
    (YaampClient.prune^[locks + 1] client).freed = 1 := by
  rcases owned.finished finished with freed | ⟨listed, deleted⟩
  · have unlisted : client.listed = false := by
      rcases owned.freed with zero | ⟨-, unlisted, -⟩
      · omega
      · exact unlisted
    rw [Function.iterate_fixed (YaampClient.prune_of_unlisted unlisted)]
    exact freed
  · have kept : client.freed = 0 := by
      rcases owned.freed with zero | ⟨-, unlisted, -⟩
      · exact zero
      · exact absurd listed (by simp [unlisted])
    induction locks generalizing client with
    | zero =>
        have prunable : client.prunable = true := by
          simp [YaampObject.prunable, deleted, held]
        rw [Function.iterate_one,
          YaampClient.prune_of_prunable listed prunable, kept]
    | succ locks ih =>
        have locked : client.prunable = false := by
          simp [YaampObject.prunable, held]
          omega
        have unlock := owned.locked.2 (by omega)
        have next := owned.prune fun _ prunable =>
          absurd prunable (by simp [locked])
        rw [Function.iterate_succ_apply]
        rw [YaampClient.prune_of_kept listed locked] at next ⊢
        refine ih next finished ?_ listed ?_ kept
        · simp only [YaampClient.setHeader, YaampObject.release]
          rw [if_pos ⟨by omega, unlock⟩]
          simp only [held]
          omega
        · simp [YaampClient.setHeader, deleted]

/--
The client is freed at most once, its thread does not use it after that, and
when the thread is finished, the passes that follow leave it freed once.
-/
structure FreedOnce (client : YaampClient) : Prop where
  atMostOnce : client.freed ≤ 1
  unused : client.usedAfterFree = false
  collected :
    client.thread = .finished →
      (YaampClient.prune^[client.lockCount.toNat + 1] client).freed = 1

theorem Owned.freedOnce {client : YaampClient} (owned : Owned client) :
    FreedOnce client where
  atMostOnce := by
    rcases owned.freed with zero | ⟨once, -⟩
    · omega
    · omega
  unused := owned.unused
  collected := fun finished =>
    freed_after_prunes owned finished
      (Int.toNat_of_nonneg owned.locked.1).symm

/--
In every run whose passes free only clients of finished threads, every client
is freed once and not used after that.
-/
theorem freed_once_of_prunesFinished
    {actions : List Action}
    (careful : Run.EveryStep step PrunesFinished [] actions) :
    ∀ client ∈ Run.after step [] actions, FreedOnce client := by
  have owned : ∀ client ∈ Run.after step [] actions, Owned client :=
    Run.invariant_after_of_everyStep owned_step (by simp) careful
  exact fun client listed => (owned client listed).freedOnce

/-- A connection that is served, ends and is collected. -/
def servedRun : List Action :=
  [.connect, .authorize 0, .request 0, .hangUp 0, .exit 0, .exit 0, .exit 0,
    .exit 0, .objectPrune]

/-- The client of that connection at the end. -/
def servedClient : YaampClient where
  toYaampObject := YaampObject.zeroed.delete
  listed := false
  thread := .finished
  freed := 1
  usedAfterFree := false

theorem freed_once_of_prunesFinished_servedRun : FreedOnce servedClient := by
  have careful : Run.EveryStep step PrunesFinished [] servedRun := by
    decide
  have reached : servedClient ∈ Run.after step [] servedRun := by
    decide
  exact freed_once_of_prunesFinished careful servedClient reached

/-! ## A pass that comes too early -/

/-- A thread that still runs uses the freed object or frees it again. -/
theorem not_freedOnce_of_running
    {client : YaampClient} (freed : 0 < client.freed)
    (unlisted : client.listed = false)
    (running : client.thread ≠ .finished) :
    ¬ FreedOnce client.hangUp.exit.exit := by
  intro safe
  have unused := safe.unused
  have once := safe.atMostOnce
  cases position : client.thread with
  | requests =>
      simp [YaampClient.hangUp, YaampClient.exit, YaampClient.use, position,
        unlisted, freed] at unused
  | leaving =>
      simp [YaampClient.hangUp, YaampClient.exit, YaampClient.use, position,
        unlisted, freed] at unused
  | finding =>
      simp [YaampClient.hangUp, YaampClient.exit, YaampClient.use, position,
        unlisted, freed] at unused
  | found =>
      simp [YaampClient.hangUp, YaampClient.exit, YaampClient.use, position,
        freed] at unused
  | marking =>
      simp [YaampClient.hangUp, YaampClient.exit, YaampClient.use, position,
        freed] at unused
  | notFound =>
      simp [YaampClient.hangUp, YaampClient.exit, YaampClient.use, position,
        freed] at unused
  | closed =>
      simp only [YaampClient.hangUp, YaampClient.exit, position, reduceCtorEq,
        if_false] at once
      omega
  | finished =>
      exact running position

/-- A pass that frees the client of a running thread makes a run unsafe. -/
theorem not_freedOnce_of_early_prune
    {clients : Clients} {i : Nat} {client : YaampClient}
    (found : clients[i]? = some client)
    (listed : client.listed = true) (prunable : client.prunable = true)
    (running : client.thread ≠ .finished) :
    ∃ reached ∈
        Run.after step clients
          [.objectPrune, .hangUp i, .exit i, .exit i],
      ¬ FreedOnce reached := by
  have position :
      (Run.after step clients
          [.objectPrune, .hangUp i, .exit i, .exit i])[i]? =
        some client.prune.hangUp.exit.exit := by
    simp [step, found]
  refine ⟨_, List.mem_of_getElem? position, ?_⟩
  rw [YaampClient.prune_of_prunable listed prunable]
  exact not_freedOnce_of_running (Nat.succ_pos _) rfl running

/--
A served client is marked by the update of the workers and freed by the next
pass; its thread then reads it, does not find it in the list and frees it
again.
-/
def prunedWhileServed : List Action :=
  [.connect, .authorize 0, .dbUpdateWorkers 0, .objectPrune, .hangUp 0,
    .exit 0, .exit 0, .exit 0, .exit 0]

theorem freed_twice_at_prunedWhileServed :
    ¬ ∀ client ∈ Run.after step [] prunedWhileServed, FreedOnce client := by
  have reached :
      Run.after step [] prunedWhileServed =
        [{ toYaampObject := YaampObject.zeroed.delete
           listed := false
           thread := .finished
           freed := 2
           usedAfterFree := true }] := by
    decide
  rw [reached]
  intro safe
  have once := (safe _ (List.mem_singleton_self _)).atMostOnce
  exact absurd once (by decide)

end YiimpStratum.Client
