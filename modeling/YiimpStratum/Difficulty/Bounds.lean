import YiimpStratum.Difficulty.Announced

/-!
# Bounds on the difficulty of a client

The difficulty of a client is set by its subscription, by the password of its
login, by its suggestions and by the broadcast of a job.  All but the first
pass through `client_normalize_difficulty`, which raises a small number to
`g_stratum_min_diff`, rounds another down, and lowers a large one to
`g_stratum_max_diff`.

The state is that of all clients, since a subscription may take over the
difficulty of a client that has logged in.  The number in a password, the times
between shares and what an assignment to a remote job sets are inputs.  A
number is always the double that the code reads, as a rational.
-/

namespace YiimpStratum.Bounds

open YiimpStratum.Util
open YiimpStratum.Announcement (Authorization clientNormalizeDifficulty)

/-- The settings of the stratum, with the bounds in order. -/
structure Stratum extends Announcement.Config where
  diffMultiplier : ℚ
  positive : 0 < stratumMinDiff
  least : stratumMinDiff ≤ stratumDifficulty
  greatest : stratumDifficulty ≤ stratumMaxDiff

/-- The fields of `YAAMP_CLIENT` that set a difficulty or find a client. -/
structure YaampClient where
  notifyId : CString
  reconnecting : Bool
  difficultyActual : ℚ
  difficultyRemote : ℚ
  difficultyFixed : Bool
  sharesPerMinute : ℚ

/-- A client as `client_thread` allocates it. -/
def YaampClient.connected : YaampClient where
  notifyId := []
  reconnecting := false
  difficultyActual := 0
  difficultyRemote := 0
  difficultyFixed := false
  sharesPerMinute := 10

/-- The clients by their connections, and `g_list_client`. -/
structure Server where
  clients : List YaampClient
  listed : List Nat

/-! ## Changes of the difficulty -/

section Changes

variable (stratum : Stratum)

/-- The bounds on `user_target`. -/
def Allowed (difficulty : ℚ) : Prop :=
  yaampMindiff ≤ diffToTarget stratum.diffMultiplier difficulty ∧
    diffToTarget stratum.diffMultiplier difficulty ≤ yaampMaxdiff

instance (difficulty : ℚ) : Decidable (Allowed stratum difficulty) :=
  inferInstanceAs (Decidable (_ ∧ _))

def clientRecordDifficulty (elapsed : Int) (client : YaampClient) :
    YaampClient :=
  if client.difficultyRemote ≠ 0 then client
  else
    let e := max elapsed 500
    { client with
      sharesPerMinute :=
        (client.sharesPerMinute * 95 + ((60 * 1000 * 5 / e : Int) : ℚ)) /
          100 }

/-- The count of shares starts again in `client_send_difficulty`. -/
def clientChangeDifficulty (difficulty : ℚ) (client : YaampClient) :
    YaampClient :=
  let normalized := clientNormalizeDifficulty stratum.toConfig difficulty
  if difficulty ≤ 0 ∨ normalized ≤ 0 then client
  else if normalized = client.difficultyActual then client
  else if Allowed stratum normalized then
    { client with difficultyActual := normalized, sharesPerMinute := 10 }
  else client

def clientAdjustDifficulty (client : YaampClient) : YaampClient :=
  if client.difficultyRemote ≠ 0 then
    clientChangeDifficulty stratum client.difficultyRemote client
  else if 100 < client.sharesPerMinute then
    clientChangeDifficulty stratum (client.difficultyActual * 4) client
  else if client.difficultyFixed then client
  else if 25 < client.sharesPerMinute then
    clientChangeDifficulty stratum (client.difficultyActual * 2) client
  else if 20 < client.sharesPerMinute then
    clientChangeDifficulty stratum (client.difficultyActual * (3 / 2)) client
  else if client.sharesPerMinute < 5 then
    clientChangeDifficulty stratum (client.difficultyActual / 2) client
  else client

/-- `client_initialize_difficulty`, with the number behind `d=` if any. -/
def clientInitializeDifficulty (password : Option ℚ)
    (client : YaampClient) : YaampClient :=
  match password with
  | none => client
  | some number =>
      let diff := clientNormalizeDifficulty stratum.toConfig number
      if Allowed stratum diff then
        { client with difficultyActual := diff, difficultyFixed := true }
      else client

/--
`client_suggest_difficulty`.  A parameter is the double that its `u.dbl`
holds: the number that the message gives with a point or an exponent, and for
one without them, an `int64_t` of the parser, the double with its bits.
-/
def clientSuggestDifficulty (params : List ℚ) (client : YaampClient) :
    YaampClient :=
  match params with
  | [] => client
  | number :: _ =>
      let diff := clientNormalizeDifficulty stratum.toConfig number
      if Allowed stratum diff then { client with difficultyActual := diff }
      else client

end Changes

/-! ## Requests -/

namespace Server

variable (server : Server)

/-- Before the first connection. -/
def start : Server where
  clients := []
  listed := []

def modifyClient (i : Nat) (change : YaampClient → YaampClient) : Server :=
  { server with clients := server.clients.modify i change }

/-- `client_find_notify_id` -/
def clientFindNotifyId (notifyId : CString) (reconnecting : Bool) :
    Option YaampClient :=
  if notifyId = [] then none
  else
    (server.listed.filterMap fun i => server.clients[i]?).find? fun client =>
      client.reconnecting == reconnecting && client.notifyId == notifyId

/-- The search by the notify id of the request. -/
def resume (i : Nat) (notifyId : CString) : Server :=
  match (server.clientFindNotifyId notifyId true).or
      (server.clientFindNotifyId notifyId false) with
  | none => server
  | some client1 =>
      server.modifyClient i fun client =>
        { client with
          notifyId := notifyId
          difficultyActual := client1.difficultyActual }

/--
`client_subscribe`; `key` is the random notify id, `notifyId` the one that the
request presents.
-/
def clientSubscribe (stratum : Stratum) (i : Nat) (key notifyId : CString) :
    Server :=
  (server.modifyClient i fun client =>
    { client with
      difficultyActual := stratum.stratumDifficulty
      notifyId := key }).resume i (notifyId.take 1023)

def clientAuthorize (stratum : Stratum) (i : Nat) (password : Option ℚ)
    (outcome : Authorization) : Server :=
  if i ∈ server.listed ∨ server.clients.length ≤ i then server
  else
    match outcome with
    | .refused => server
    | .refusedAfterDifficulty =>
        server.modifyClient i (clientInitializeDifficulty stratum password)
    | .accepted =>
        { server.modifyClient i fun client =>
            { clientInitializeDifficulty stratum password client with
              sharesPerMinute := 10 } with
          listed := server.listed ++ [i] }

/-- One exchange of `client_sort`. -/
def clientSort (position : Nat) : Server :=
  match server.listed[position]?, server.listed[position + 1]? with
  | some i, some j =>
      { server with
        listed := (server.listed.set position j).set (position + 1) i }
  | _, _ => server

end Server

/-- A request of a client, or a step of another thread. -/
inductive Action where
  | connect
  | subscribe (i : Nat) (key notifyId : CString)
  | authorize (i : Nat) (password : Option ℚ) (outcome : Authorization)
  | suggestDifficulty (i : Nat) (params : List ℚ)
  | submit (i : Nat) (elapsed : Int)
  | jobAssign (i : Nat) (difficultyRemote : ℚ) (reconnecting : Bool)
  | jobBroadcast (i : Nat)
  | clientSort (position : Nat)
  | pruneClient (i : Nat)

def step (stratum : Stratum) (server : Server) : Action → Server
  | .connect =>
      { server with clients := server.clients ++ [YaampClient.connected] }
  | .subscribe i key notifyId => server.clientSubscribe stratum i key notifyId
  | .authorize i password outcome =>
      server.clientAuthorize stratum i password outcome
  | .suggestDifficulty i params =>
      server.modifyClient i (clientSuggestDifficulty stratum params)
  | .submit i elapsed => server.modifyClient i (clientRecordDifficulty elapsed)
  | .jobAssign i difficultyRemote reconnecting =>
      server.modifyClient i fun client =>
        { client with
          difficultyRemote := difficultyRemote
          reconnecting := reconnecting }
  | .jobBroadcast i =>
      if i ∈ server.listed then
        server.modifyClient i (clientAdjustDifficulty stratum)
      else server
  | .clientSort position => server.clientSort position
  | .pruneClient i =>
      { server with listed := server.listed.filter fun j => j != i }

/-! ## The property and its condition -/

/-- The number is between the bounds of the settings. -/
def Within (stratum : Stratum) (difficulty : ℚ) : Prop :=
  stratum.stratumMinDiff ≤ difficulty ∧ difficulty ≤ stratum.stratumMaxDiff

/-- The client has logged in or subscribed, or its difficulty has been set. -/
def HasDifficulty (server : Server) (i : Nat) (client : YaampClient) : Prop :=
  i ∈ server.listed ∨ client.notifyId ≠ [] ∨ client.difficultyActual ≠ 0

/-- The difficulty of every client that has one is between the bounds. -/
def Bounded (stratum : Stratum) (server : Server) : Prop :=
  ∀ i client, server.clients[i]? = some client →
    HasDifficulty server i client → Within stratum client.difficultyActual

/--
The point of the grid at or below a number: a multiple of one five-hundredth
below one, an even number above.
-/
def gridPoint (number : ℚ) : ℚ :=
  if number < 1 then (⌊number * 500⌋ : ℚ) / 500
  else if 1 < number then 2 * (⌊number / 2⌋ : ℚ)
  else number

/-- The number a request comes to: a number below the least is raised to it. -/
def comesTo (stratum : Stratum) (number : ℚ) : ℚ :=
  min stratum.stratumMaxDiff
    (if number < stratum.stratumMinDiff then stratum.stratumMinDiff
    else gridPoint number)

/-- A request that is taken has no grid point below the least difficulty. -/
def Fits (stratum : Stratum) (number : ℚ) : Prop :=
  Allowed stratum (comesTo stratum number) →
    number < stratum.stratumMinDiff ∨
      stratum.stratumMinDiff ≤ gridPoint number

/-- The number that `client_adjust_difficulty` asks for. -/
def requested (client : YaampClient) : Option ℚ :=
  if client.difficultyRemote ≠ 0 then some client.difficultyRemote
  else if 100 < client.sharesPerMinute then
    some (client.difficultyActual * 4)
  else if client.difficultyFixed then none
  else if 25 < client.sharesPerMinute then some (client.difficultyActual * 2)
  else if 20 < client.sharesPerMinute then
    some (client.difficultyActual * (3 / 2))
  else if client.sharesPerMinute < 5 then some (client.difficultyActual / 2)
  else none

/-- A login needs a difficulty, from before or from its password. -/
def AuthorizeFits (stratum : Stratum) (password : Option ℚ)
    (client : YaampClient) : Authorization → Prop
  | .refused => True
  | .refusedAfterDifficulty => ∀ number ∈ password, Fits stratum number
  | .accepted =>
      (∀ number ∈ password, Fits stratum number) ∧
        (client.difficultyActual ≠ 0 ∨
          ∃ number ∈ password, Allowed stratum (comesTo stratum number))

/-- The step takes no number that rounding brings below the least difficulty. -/
def Careful (stratum : Stratum) (server : Server) : Action → Prop
  | .authorize i password outcome =>
      i ∉ server.listed → ∀ client ∈ server.clients[i]?,
        AuthorizeFits stratum password client outcome
  | .suggestDifficulty i params =>
      i < server.clients.length →
        ∀ number ∈ params.head?, Fits stratum number
  | .jobBroadcast i =>
      i ∈ server.listed → ∀ client ∈ server.clients[i]?,
        ∀ number ∈ requested client, 0 < number → Fits stratum number
  | _ => True

/-! ## Normalization -/

section Normalization

variable (stratum : Stratum)

theorem min_le_max : stratum.stratumMinDiff ≤ stratum.stratumMaxDiff :=
  stratum.least.trans stratum.greatest

/-- What `client_normalize_difficulty` returns. -/
theorem clientNormalizeDifficulty_eq (number : ℚ) :
    clientNormalizeDifficulty stratum.toConfig number =
      comesTo stratum number := by
  have lowered : ∀ value : ℚ,
      (if stratum.stratumMaxDiff < value then stratum.stratumMaxDiff
        else value) =
        min stratum.stratumMaxDiff value := by
    intro value
    split
    · rename_i above
      exact (min_eq_left above.le).symm
    · rename_i below
      exact (min_eq_right (not_lt.mp below)).symm
  rw [clientNormalizeDifficulty, comesTo, gridPoint, lowered]
  congr 1
  split
  · rfl
  · split
    · have scaled : number * 1000 / 2 = number * 500 := by ring
      rw [scaled]
      ring
    · split
      · ring
      · rfl

/-- No difficulty is above the largest one. -/
theorem comesTo_le (number : ℚ) :
    comesTo stratum number ≤ stratum.stratumMaxDiff :=
  min_le_left _ _

/-- A difficulty is not below the smallest one, up to the rounding. -/
theorem min_le_comesTo_iff (number : ℚ) :
    stratum.stratumMinDiff ≤ comesTo stratum number ↔
      number < stratum.stratumMinDiff ∨
        stratum.stratumMinDiff ≤ gridPoint number := by
  rw [comesTo, le_min_iff, and_iff_right (min_le_max stratum)]
  split
  · rename_i below
    exact iff_of_true le_rfl (Or.inl below)
  · rename_i above
    exact (or_iff_right above).symm

/-- A request keeps the bounds exactly when it fits. -/
theorem within_comesTo_iff (number : ℚ) :
    (Allowed stratum (comesTo stratum number) →
        Within stratum (comesTo stratum number)) ↔
      Fits stratum number := by
  rw [Within, Fits, min_le_comesTo_iff,
    and_iff_left (comesTo_le stratum number)]

theorem gridPoint_nonneg {number : ℚ} (positive : 0 < number) :
    0 ≤ gridPoint number := by
  rw [gridPoint]
  split
  · have whole : (0 : Int) ≤ ⌊number * 500⌋ :=
      Int.floor_nonneg.mpr (by positivity)
    have cast : (0 : ℚ) ≤ (⌊number * 500⌋ : ℚ) := by exact_mod_cast whole
    positivity
  · split
    · have whole : (0 : Int) ≤ ⌊number / 2⌋ :=
        Int.floor_nonneg.mpr (by positivity)
      have cast : (0 : ℚ) ≤ (⌊number / 2⌋ : ℚ) := by exact_mod_cast whole
      positivity
    · exact positive.le

theorem comesTo_nonneg {number : ℚ} (positive : 0 < number) :
    0 ≤ comesTo stratum number := by
  rw [comesTo, le_min_iff]
  refine ⟨stratum.positive.le.trans (min_le_max stratum), ?_⟩
  split
  · exact stratum.positive.le
  · exact gridPoint_nonneg positive

/-- A difficulty of zero is not taken. -/
theorem not_allowed_zero : ¬ Allowed stratum 0 := by
  intro allowed
  have least := allowed.1
  rw [diffToTarget, if_pos rfl] at least
  exact absurd least (by decide)

end Normalization

/-! ## Changes of one client -/

section Changes

variable {stratum : Stratum} {server : Server}

/-- The property after a change of one client, which may enter the list. -/
theorem bounded_update_iff (bounded : Bounded stratum server) {i : Nat}
    {listed : List Nat}
    (others : ∀ j ∈ listed, j ∈ server.listed ∨ j = i)
    (change : YaampClient → YaampClient) :
    Bounded stratum
        { clients := server.clients.modify i change, listed := listed } ↔
      ∀ client, server.clients[i]? = some client →
        i ∈ listed ∨ (change client).notifyId ≠ [] ∨
            (change client).difficultyActual ≠ 0 →
          Within stratum (change client).difficultyActual := by
  constructor
  · intro after client present
    refine after i (change client) ?_
    rw [List.getElem?_modify_eq, present]
    rfl
  · intro changed j client present has
    rw [List.getElem?_modify] at present
    split at present
    · rename_i same
      subst same
      obtain ⟨before, found, rfl⟩ := Option.map_eq_some_iff.mp present
      exact changed before found has
    · rename_i different
      rw [id_map'] at present
      refine bounded j client present (has.imp_left fun member => ?_)
      exact (others j member).resolve_right fun same => different same.symm

/-- Only the difficulty of the client that changes matters. -/
theorem bounded_modifyClient_iff (bounded : Bounded stratum server) (i : Nat)
    (change : YaampClient → YaampClient) :
    Bounded stratum (server.modifyClient i change) ↔
      ∀ client, server.clients[i]? = some client →
        HasDifficulty server i (change client) →
          Within stratum (change client).difficultyActual :=
  bounded_update_iff bounded (fun _ member => Or.inl member) change

/-- A change that leaves what the property is about. -/
theorem bounded_modifyClient_of_same (bounded : Bounded stratum server)
    (i : Nat) {change : YaampClient → YaampClient}
    (same : ∀ client, (change client).notifyId = client.notifyId ∧
      (change client).difficultyActual = client.difficultyActual) :
    Bounded stratum (server.modifyClient i change) := by
  refine (bounded_modifyClient_iff bounded i change).mpr ?_
  intro client present has
  obtain ⟨notifyId, actual⟩ := same client
  rw [HasDifficulty, notifyId, actual] at has
  rw [actual]
  exact bounded i client present has

/-- A client that is not in the list any more. -/
theorem Bounded.of_listed (bounded : Bounded stratum server)
    {listed : List Nat} (fewer : ∀ j ∈ listed, j ∈ server.listed) :
    Bounded stratum { server with listed := listed } := by
  intro i client present has
  exact bounded i client present (has.imp_left (fewer i))

/-- A difficulty that is set is within the bounds. -/
theorem Bounded.ne_zero {i : Nat} {client : YaampClient}
    (bounded : Bounded stratum server)
    (present : server.clients[i]? = some client) :
    client.difficultyActual ≠ 0 ↔
      Within stratum client.difficultyActual := by
  constructor
  · exact fun set => bounded i client present (Or.inr (Or.inr set))
  · intro within
    exact (stratum.positive.trans_le within.1).ne'

/-- A value that may be set keeps the bounds exactly when its request fits. -/
theorem has_imp_within_iff {number : ℚ}
    (allowed : Allowed stratum (comesTo stratum number)) {has : Prop}
    (holds : comesTo stratum number ≠ 0 → has) :
    (has → Within stratum (comesTo stratum number)) ↔
      Fits stratum number := by
  have nonzero : comesTo stratum number ≠ 0 := by
    intro zero
    rw [zero] at allowed
    exact not_allowed_zero stratum allowed
  rw [← within_comesTo_iff stratum number, imp_iff_right (holds nonzero),
    imp_iff_right allowed]

/-- A number that is not taken does no harm. -/
theorem fits_of_not_allowed {number : ℚ}
    (refused : ¬ Allowed stratum (comesTo stratum number)) :
    Fits stratum number :=
  fun allowed => absurd allowed refused

/-- What the number of a password does. -/
theorem clientInitializeDifficulty_some (stratum : Stratum) (number : ℚ)
    (client : YaampClient) :
    clientInitializeDifficulty stratum (some number) client =
      if Allowed stratum (comesTo stratum number) then
        { client with
          difficultyActual := comesTo stratum number
          difficultyFixed := true }
      else client := by
  rw [clientInitializeDifficulty, clientNormalizeDifficulty_eq]

/-- The first parameter is taken, or nothing changes. -/
theorem clientSuggestDifficulty_cons (stratum : Stratum) (number : ℚ)
    (params : List ℚ) (client : YaampClient) :
    clientSuggestDifficulty stratum (number :: params) client =
      if Allowed stratum (comesTo stratum number) then
        { client with difficultyActual := comesTo stratum number }
      else client := by
  rw [clientSuggestDifficulty, clientNormalizeDifficulty_eq]

/-- The adjustment changes to the number that it asks for. -/
theorem clientAdjustDifficulty_eq (stratum : Stratum) (client : YaampClient) :
    clientAdjustDifficulty stratum client =
      match requested client with
      | none => client
      | some number => clientChangeDifficulty stratum number client := by
  rw [clientAdjustDifficulty, requested]
  split_ifs
  all_goals rfl

/-- A change of a bounded difficulty keeps the bounds when its number fits. -/
theorem within_clientChangeDifficulty_iff {client : YaampClient}
    (within : Within stratum client.difficultyActual) (number : ℚ) :
    Within stratum
        (clientChangeDifficulty stratum number client).difficultyActual ↔
      (0 < number → Fits stratum number) := by
  rw [clientChangeDifficulty, clientNormalizeDifficulty_eq]
  split
  · rename_i returns
    refine iff_of_true within fun positive => fits_of_not_allowed ?_
    have zero : comesTo stratum number = 0 :=
      le_antisymm (returns.resolve_left (not_le.mpr positive))
        (comesTo_nonneg stratum positive)
    rw [zero]
    exact not_allowed_zero stratum
  · rename_i goes
    rw [not_or, not_le, not_le] at goes
    rw [imp_iff_right goes.1]
    split
    · rename_i same
      refine iff_of_true within ?_
      rw [← within_comesTo_iff, same]
      exact fun _ => within
    · split
      · rename_i allowed
        rw [← within_comesTo_iff, imp_iff_right allowed]
      · rename_i refused
        exact iff_of_true within (fits_of_not_allowed refused)

end Changes

/-! ## Steps -/

/-- The list holds clients that are there. -/
def Present (server : Server) : Prop :=
  ∀ i ∈ server.listed, i < server.clients.length

section Steps

variable {stratum : Stratum} {server : Server}

/-- A change of a client leaves the list as it is. -/
theorem Present.modifyClient (present : Present server) (i : Nat)
    (change : YaampClient → YaampClient) :
    Present (server.modifyClient i change) := by
  intro j member
  rw [Server.modifyClient, List.length_modify]
  exact present j member

theorem Present.resume (present : Present server) (i : Nat)
    (notifyId : CString) : Present (server.resume i notifyId) := by
  rw [Server.resume]
  split
  · exact present
  · exact present.modifyClient i _

theorem Present.clientAuthorize (present : Present server) (i : Nat)
    (password : Option ℚ) (outcome : Authorization) :
    Present (server.clientAuthorize stratum i password outcome) := by
  rw [Server.clientAuthorize.eq_def]
  split
  · exact present
  · rename_i enters
    rw [not_or, not_le] at enters
    cases outcome with
    | refused => exact present
    | refusedAfterDifficulty => exact present.modifyClient i _
    | accepted =>
        intro j member
        dsimp only
        rw [Server.modifyClient, List.length_modify]
        rcases List.mem_append.mp member with old | new
        · exact present j old
        · rw [List.mem_singleton.mp new]
          exact enters.2

/-- An exchange in the list adds no client. -/
theorem mem_clientSort {position j : Nat}
    (member : j ∈ (server.clientSort position).listed) :
    j ∈ server.listed := by
  rw [Server.clientSort] at member
  split at member
  · rename_i first second here next
    rcases List.mem_or_eq_of_mem_set member with set | rfl
    · rcases List.mem_or_eq_of_mem_set set with old | rfl
      · exact old
      · exact List.mem_of_getElem? next
    · exact List.mem_of_getElem? here
  · exact member

theorem clientSort_clients (server : Server) (position : Nat) :
    (server.clientSort position).clients = server.clients := by
  rw [Server.clientSort]
  split
  · rfl
  · rfl

/-- Every step keeps the listed clients present. -/
theorem present_step (present : Present server) (action : Action) :
    Present (step stratum server action) := by
  cases action with
  | connect =>
      intro i member
      rw [step, List.length_append]
      exact Nat.lt_add_right _ (present i member)
  | subscribe i key notifyId => exact (present.modifyClient i _).resume i _
  | authorize i password outcome => exact present.clientAuthorize i _ _
  | suggestDifficulty i params => exact present.modifyClient i _
  | submit i elapsed => exact present.modifyClient i _
  | jobAssign i difficultyRemote reconnecting => exact present.modifyClient i _
  | jobBroadcast i =>
      rw [step]
      split
      · exact present.modifyClient i _
      · exact present
  | clientSort position =>
      intro i member
      rw [step, clientSort_clients]
      exact present i (mem_clientSort member)
  | pruneClient i =>
      intro j member
      exact present j (List.mem_filter.mp member).1

/-- A new connection has no difficulty yet. -/
theorem bounded_connect (bounded : Bounded stratum server)
    (present : Present server) :
    Bounded stratum (step stratum server .connect) := by
  intro i client found has
  rcases lt_or_ge i server.clients.length with old | new
  · rw [step, List.getElem?_append_left old] at found
    exact bounded i client found has
  · rw [step, List.getElem?_append_right new,
      List.getElem?_singleton] at found
    split at found
    · cases found
      rcases has with member | named | set
      · exact absurd (present i member) (not_lt.mpr new)
      · exact absurd rfl named
      · exact absurd rfl set
    · cases found

/-- The client that a subscription resumes is in the list. -/
theorem within_of_clientFindNotifyId (bounded : Bounded stratum server)
    {notifyId : CString} {reconnecting : Bool} {client1 : YaampClient}
    (found : server.clientFindNotifyId notifyId reconnecting =
      some client1) :
    Within stratum client1.difficultyActual := by
  rw [Server.clientFindNotifyId] at found
  split at found
  · cases found
  · obtain ⟨i, member, present⟩ :=
      List.mem_filterMap.mp (List.mem_of_find?_eq_some found)
    exact bounded i client1 present (Or.inl member)

/-- A client takes over a difficulty within the bounds. -/
theorem Bounded.resume (bounded : Bounded stratum server) (i : Nat)
    (notifyId : CString) : Bounded stratum (server.resume i notifyId) := by
  rw [Server.resume]
  split
  · exact bounded
  · rename_i client1 found
    rw [bounded_modifyClient_iff bounded]
    have within : Within stratum client1.difficultyActual := by
      rcases Option.or_eq_some_iff.mp found with first | ⟨-, second⟩
      · exact within_of_clientFindNotifyId bounded first
      · exact within_of_clientFindNotifyId bounded second
    exact fun _ _ _ => within

/-- A login keeps the bounds exactly when it is careful. -/
theorem bounded_clientAuthorize_iff (bounded : Bounded stratum server)
    (i : Nat) (password : Option ℚ) (outcome : Authorization) :
    Bounded stratum (server.clientAuthorize stratum i password outcome) ↔
      Careful stratum server (.authorize i password outcome) := by
  rw [Server.clientAuthorize.eq_def, Careful]
  split
  · rename_i returns
    refine iff_of_true bounded fun unlisted client present => ?_
    have missing := returns.resolve_left unlisted
    rw [List.getElem?_eq_none missing] at present
    cases present
  · rename_i enters
    rw [not_or] at enters
    rw [imp_iff_right enters.1]
    cases outcome with
    | refused => exact iff_of_true bounded fun _ _ => trivial
    | refusedAfterDifficulty =>
        rw [bounded_modifyClient_iff bounded]
        refine forall_congr' fun client => forall_congr' fun present => ?_
        rw [AuthorizeFits]
        cases password with
        | none =>
            exact iff_of_true (bounded i client present)
              fun number absent => by cases absent
        | some number =>
            simp only [Option.mem_def, Option.some.injEq, forall_eq']
            rw [clientInitializeDifficulty_some]
            split
            · rename_i allowed
              exact has_imp_within_iff allowed fun set =>
                Or.inr (Or.inr set)
            · rename_i refused
              exact iff_of_true (bounded i client present)
                (fits_of_not_allowed refused)
    | accepted =>
        have others : ∀ j ∈ server.listed ++ [i], j ∈ server.listed ∨ j = i :=
          fun j member => (List.mem_append.mp member).imp_right
            List.mem_singleton.mp
        refine (bounded_update_iff bounded others _).trans ?_
        refine forall_congr' fun client => forall_congr' fun present => ?_
        have enters : i ∈ server.listed ++ [i] :=
          List.mem_append_right _ (List.mem_singleton_self i)
        rw [imp_iff_right (Or.inl enters), AuthorizeFits]
        cases password with
        | none =>
            simp only [Option.mem_def, reduceCtorEq, false_imp_iff,
              implies_true, false_and, exists_const, or_false, true_and]
            exact (bounded.ne_zero present).symm
        | some number =>
            simp only [Option.mem_def, Option.some.injEq, forall_eq',
              exists_eq_left']
            rw [clientInitializeDifficulty_some]
            split
            · rename_i allowed
              rw [← within_comesTo_iff, imp_iff_right allowed]
              exact (and_iff_left (Or.inr allowed)).symm
            · rename_i refused
              rw [and_iff_right (fits_of_not_allowed refused),
                or_iff_left refused]
              exact (bounded.ne_zero present).symm

/-- A suggestion keeps the bounds exactly when it is careful. -/
theorem bounded_suggest_iff (bounded : Bounded stratum server) (i : Nat)
    (params : List ℚ) :
    Bounded stratum
        (server.modifyClient i (clientSuggestDifficulty stratum params)) ↔
      Careful stratum server (.suggestDifficulty i params) := by
  rw [bounded_modifyClient_iff bounded, Careful]
  cases params with
  | nil =>
      exact iff_of_true (bounded i) fun _ number absent => by cases absent
  | cons number params =>
      simp only [List.head?_cons, Option.mem_def, Option.some.injEq,
        forall_eq']
      constructor
      · intro all inside
        have present := List.getElem?_eq_getElem inside
        have one := all _ present
        rw [clientSuggestDifficulty_cons] at one
        split at one
        · rename_i allowed
          exact (has_imp_within_iff allowed fun set =>
            Or.inr (Or.inr set)).mp one
        · rename_i refused
          exact fits_of_not_allowed refused
      · intro fits client present
        rw [clientSuggestDifficulty_cons]
        split
        · rename_i allowed
          refine (has_imp_within_iff allowed fun set =>
            Or.inr (Or.inr set)).mpr (fits ?_)
          exact (List.getElem?_eq_some_iff.mp present).1
        · exact bounded i client present

/-- An adjustment keeps the bounds exactly when it is careful. -/
theorem bounded_broadcast_iff (bounded : Bounded stratum server) (i : Nat) :
    Bounded stratum (step stratum server (.jobBroadcast i)) ↔
      Careful stratum server (.jobBroadcast i) := by
  rw [step, Careful]
  split
  · rename_i listed
    rw [imp_iff_right listed, bounded_modifyClient_iff bounded]
    refine forall_congr' fun client => forall_congr' fun present => ?_
    have within := bounded i client present (Or.inl listed)
    rw [HasDifficulty, imp_iff_right (Or.inl listed),
      clientAdjustDifficulty_eq]
    cases requested client with
    | none => exact iff_of_true within fun number absent => by cases absent
    | some number =>
        simp only [Option.mem_def, Option.some.injEq, forall_eq']
        exact within_clientChangeDifficulty_iff within number
  · rename_i unlisted
    exact iff_of_true bounded fun listed => absurd listed unlisted

/-- A step keeps the bounds exactly when it is careful. -/
theorem bounded_step_iff (present : Present server)
    (bounded : Bounded stratum server) (action : Action) :
    Bounded stratum (step stratum server action) ↔
      Careful stratum server action := by
  cases action with
  | connect => exact iff_of_true (bounded_connect bounded present) trivial
  | subscribe i key notifyId =>
      have subscribed := (bounded_modifyClient_iff bounded i fun client =>
        { client with
          difficultyActual := stratum.stratumDifficulty
          notifyId := key }).mpr
            fun _ _ _ => ⟨stratum.least, stratum.greatest⟩
      exact iff_of_true (subscribed.resume i _) trivial
  | authorize i password outcome =>
      exact bounded_clientAuthorize_iff bounded i password outcome
  | suggestDifficulty i params => exact bounded_suggest_iff bounded i params
  | submit i elapsed =>
      refine iff_of_true (bounded_modifyClient_of_same bounded i ?_) trivial
      intro client
      rw [clientRecordDifficulty]
      split
      · exact ⟨rfl, rfl⟩
      · exact ⟨rfl, rfl⟩
  | jobAssign i difficultyRemote reconnecting =>
      exact iff_of_true
        (bounded_modifyClient_of_same bounded i fun _ => ⟨rfl, rfl⟩) trivial
  | jobBroadcast i => exact bounded_broadcast_iff bounded i
  | clientSort position =>
      refine iff_of_true ?_ trivial
      intro i client found has
      rw [step, clientSort_clients] at found
      exact bounded i client found (has.imp_left mem_clientSort)
  | pruneClient i =>
      exact iff_of_true
        (bounded.of_listed fun j member => (List.mem_filter.mp member).1)
        trivial

end Steps

/-! ## Runs -/

/--
Every difficulty is between the bounds in every state of a run exactly when
every number that the run takes keeps the bounds after the rounding, and no
client logs in without a difficulty.
-/
theorem bounded_everywhere_iff (stratum : Stratum) (actions : List Action) :
    (∀ reached, reached <+: actions →
      Bounded stratum
        (Run.after (step stratum) Server.start reached)) ↔
      Run.EveryStep (step stratum) (Careful stratum) Server.start actions := by
  have startBounded : Bounded stratum Server.start := by
    intro i client found
    cases found
  have startPresent : Present Server.start := by
    intro i member
    cases member
  exact
    Run.forall_prefix_iff_everyStep (Bounded stratum)
      (fun _ action present => present_step present action)
      (fun _ action present bounded => bounded_step_iff present bounded action)
      startPresent startBounded actions

/-! ## Rounded below the least difficulty -/

/-- The least difficulty is half of the usual one when it is not set. -/
def halved : Stratum where
  stratumDifficulty := 6
  stratumMinDiff := 3
  stratumMaxDiff := 24
  diffMultiplier := 1
  positive := by norm_num
  least := by norm_num
  greatest := by norm_num

/-- A miner asks for the least difficulty, written as 3.0. -/
def asksForLeast : List Action :=
  [.connect, .subscribe 0 ['k'] [], .suggestDifficulty 0 [3]]

/-- The least difficulty is odd, and the client gets the even number below. -/
theorem not_bounded_asksForLeast :
    ¬ Bounded halved
      (Run.after (step halved) Server.start asksForLeast) := by
  have point : gridPoint 3 = 2 := by
    norm_num [gridPoint]
  have two : comesTo halved 3 = 2 := by
    rw [comesTo, point]
    norm_num [halved]
  have allowed : Allowed halved 2 := by
    have target : diffToTarget halved.diffMultiplier 2 =
        0x00007fff80000000 := by
      norm_num [diffToTarget, halved, truncate]
    rw [Allowed, target]
    decide
  have before : Bounded halved (Run.after (step halved) Server.start
      [.connect, .subscribe 0 ['k'] []]) := by
    have nobody : Present Server.start := fun i member => by cases member
    have fine : Bounded halved Server.start := fun i _ found => by cases found
    have connected := (bounded_step_iff nobody fine .connect).mpr trivial
    exact (bounded_step_iff (present_step nobody .connect) connected
      (.subscribe 0 ['k'] [])).mpr trivial
  intro bounded
  have fits := (bounded_suggest_iff before 0 [3]).mp bounded (by decide) 3 rfl
  rw [Fits, two, point] at fits
  rcases fits allowed with below | above
  · exact lt_irrefl (3 : ℚ) below
  · have least : (3 : ℚ) ≤ 2 := above
    norm_num at least

end YiimpStratum.Bounds
