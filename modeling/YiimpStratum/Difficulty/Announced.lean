import YiimpStratum.Library.Run
import YiimpStratum.Util.Difficulty

/-!
# Announced and enforced difficulty

A miner learns its difficulty from `mining.set_target`.  The difficulty that
the server enforces is changed by `client_change_difficulty`, which sends the
message, but also by `client_subscribe` and `client_suggest_difficulty`, which
do not.

The state is that of one Equihash client.  The difficulty of the client that a
subscription resumes, the number in the password and the times between shares
are inputs, and so is the difficulty that an assignment to a remote job sets.
A number is always the double that the code reads, as a rational.
-/

namespace YiimpStratum.Announcement

open YiimpStratum.Util

/-- The settings of the stratum that bound difficulties. -/
structure Config where
  stratumDifficulty : ℚ
  stratumMinDiff : ℚ
  stratumMaxDiff : ℚ

/-- A message `mining.set_target` with the difficulty it is made from. -/
structure SetTarget where
  difficulty : ℚ
  target : CString
  isTarget : target = clientSendDifficulty difficulty

/-- The fields of `YAAMP_CLIENT` about difficulties, and what was sent. -/
structure YaampClient where
  listed : Bool
  difficultyActual : ℚ
  difficultyRemote : ℚ
  difficultyFixed : Bool
  sharesPerMinute : ℚ
  sent : List SetTarget

/-- A client as `client_thread` allocates it. -/
def YaampClient.connected : YaampClient where
  listed := false
  difficultyActual := 0
  difficultyRemote := 0
  difficultyFixed := false
  sharesPerMinute := 10
  sent := []

/-! ## Changes of the difficulty -/

section Changes

variable (config : Config)

def clientNormalizeDifficulty (difficulty : ℚ) : ℚ :=
  let normalized : ℚ :=
    if difficulty < config.stratumMinDiff then config.stratumMinDiff
    else if difficulty < 1 then ⌊difficulty * 1000 / 2⌋ / 1000 * 2
    else if 1 < difficulty then ⌊difficulty / 2⌋ * 2
    else difficulty
  if config.stratumMaxDiff < normalized then config.stratumMaxDiff
  else normalized

/-- The bounds on `user_target`. -/
def Allowed (difficulty : ℚ) : Prop :=
  yaampMindiff ≤ diffToTarget equihashDiffMultiplier difficulty ∧
    diffToTarget equihashDiffMultiplier difficulty ≤ yaampMaxdiff

instance (difficulty : ℚ) : Decidable (Allowed difficulty) :=
  inferInstanceAs (Decidable (_ ∧ _))

/-- `client_send_difficulty` -/
def sendDifficulty (difficulty : ℚ) (client : YaampClient) : YaampClient :=
  { client with
    sharesPerMinute := 10
    sent :=
      client.sent ++
        [⟨difficulty, clientSendDifficulty difficulty, rfl⟩] }

def clientRecordDifficulty (elapsed : Int) (client : YaampClient) :
    YaampClient :=
  if client.difficultyRemote ≠ 0 then client
  else
    let e := max elapsed 500
    { client with
      sharesPerMinute :=
        (client.sharesPerMinute * 95 + ((60 * 1000 * 5 / e : Int) : ℚ)) /
          100 }

def clientChangeDifficulty (difficulty : ℚ) (client : YaampClient) :
    YaampClient :=
  let normalized := clientNormalizeDifficulty config difficulty
  if difficulty ≤ 0 ∨ normalized ≤ 0 then client
  else if normalized = client.difficultyActual then client
  else if Allowed normalized then
    sendDifficulty normalized { client with difficultyActual := normalized }
  else client

def clientAdjustDifficulty (client : YaampClient) : YaampClient :=
  if client.difficultyRemote ≠ 0 then
    clientChangeDifficulty config client.difficultyRemote client
  else if 100 < client.sharesPerMinute then
    clientChangeDifficulty config (client.difficultyActual * 4) client
  else if client.difficultyFixed then client
  else if 25 < client.sharesPerMinute then
    clientChangeDifficulty config (client.difficultyActual * 2) client
  else if 20 < client.sharesPerMinute then
    clientChangeDifficulty config (client.difficultyActual * (3 / 2)) client
  else if client.sharesPerMinute < 5 then
    clientChangeDifficulty config (client.difficultyActual / 2) client
  else client

/-- `client_initialize_difficulty`, with the number behind `d=` if any. -/
def clientInitializeDifficulty (password : Option ℚ)
    (client : YaampClient) : YaampClient :=
  match password with
  | none => client
  | some number =>
      let diff := clientNormalizeDifficulty config number
      if Allowed diff then
        { client with difficultyActual := diff, difficultyFixed := true }
      else client

/-! ## Requests -/

/-- How `client_authorize` ends, for a client that is not in the list. -/
inductive Authorization where
  | refused
  | refusedAfterDifficulty
  | accepted
  deriving DecidableEq

/--
`client_suggest_difficulty`.  A parameter is the double that its `u.dbl`
holds: the number that the message gives with a point or an exponent, and for
one without them, an `int64_t` of the parser, the double with its bits.
-/
def clientSuggestDifficulty (params : List ℚ) (client : YaampClient) :
    YaampClient :=
  match params with
  | [] => client
  | number :: _ =>
      let diff := clientNormalizeDifficulty config number
      if Allowed diff then { client with difficultyActual := diff } else client

/-- `client_subscribe`, with the difficulty of the client resumed if any. -/
def clientSubscribe (resumed : Option ℚ) (client : YaampClient) :
    YaampClient :=
  { client with
    difficultyActual := resumed.getD config.stratumDifficulty }

def clientAuthorize (password : Option ℚ) (outcome : Authorization)
    (client : YaampClient) : YaampClient :=
  if client.listed then client
  else
    let initialized := clientInitializeDifficulty config password client
    match outcome with
    | .refused => client
    | .refusedAfterDifficulty => initialized
    | .accepted =>
        { sendDifficulty initialized.difficultyActual initialized with
          listed := true }

inductive Action where
  | subscribe (resumed : Option ℚ)
  | authorize (password : Option ℚ) (outcome : Authorization)
  | suggestDifficulty (params : List ℚ)
  | submit (accepted : Bool) (elapsed : Int)
  | jobAssign (difficultyRemote : ℚ)
  | jobBroadcast

/-- A request of the client, or a step of `job_update` that concerns it. -/
def step (client : YaampClient) : Action → YaampClient
  | .subscribe resumed => clientSubscribe config resumed client
  | .authorize password outcome =>
      clientAuthorize config password outcome client
  | .suggestDifficulty params => clientSuggestDifficulty config params client
  | .submit accepted elapsed =>
      if accepted then clientRecordDifficulty elapsed client else client
  | .jobAssign difficultyRemote =>
      if client.listed then
        { client with difficultyRemote := difficultyRemote }
      else client
  | .jobBroadcast =>
      if client.listed then clientAdjustDifficulty config client else client

end Changes

/-! ## The property and its condition -/

/-- A subscription or suggestion after the login changes no difficulty. -/
def Careful (config : Config) (client : YaampClient) : Action → Prop
  | .subscribe resumed =>
      client.listed = true →
        resumed.getD config.stratumDifficulty = client.difficultyActual
  | .suggestDifficulty (number :: _) =>
      client.listed = true →
        Allowed (clientNormalizeDifficulty config number) →
          clientNormalizeDifficulty config number = client.difficultyActual
  | _ => True

/-! ## Steps -/

section Steps

variable {config : Config} {client : YaampClient}

end Steps

/-! ## Runs -/

end YiimpStratum.Announcement
