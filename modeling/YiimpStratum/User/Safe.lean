import YiimpStratum.User.Login

/-!
# No string of the miner leaves its quotes

Each function of the login adds queries whose arguments from the miner have no
unwanted character.  For the name and the symbol the cut comes after the
functions that only look at a part of the string, and for the strings of the
worker it is done again.
-/

namespace YiimpStratum.User

open YiimpStratum
open YiimpStratum.Util
open YiimpStratum.Db

/-! ## Safe queries -/

/-- No quote, backslash or space. -/
def Harmless (text : CString) : Prop :=
  ∀ c ∈ text, c ∉ unwanted

def SafeArgument : Argument → Prop
  | .client text => Harmless text
  | .server _ => True
  | .integer _ => True
  | .real _ => True
  | .number _ => True

/-- Every string of the miner in the query is harmless. -/
def SafeQuery (query : Query) : Prop :=
  ∀ argument ∈ query.arguments, SafeArgument argument

/-- A string of the miner has to be harmless. -/
theorem safe_client (text : CString) :
    SafeArgument (.client text) ↔ Harmless text :=
  Iff.rfl

/-- Strings of the server are trusted. -/
theorem safe_server (text : CString) : SafeArgument (.server text) :=
  trivial

theorem safe_integer (value : Int) : SafeArgument (.integer value) :=
  trivial

theorem safe_real (value : ℚ) : SafeArgument (.real value) :=
  trivial

/-- A query is safe when each of its arguments is. -/
theorem safeQuery_cons (format : String) (argument : Argument)
    (arguments : List Argument) :
    SafeQuery { format := format, arguments := argument :: arguments } ↔
      SafeArgument argument ∧
        SafeQuery { format := format, arguments := arguments } :=
  List.forall_mem_cons

theorem safeQuery_nil (format : String) :
    SafeQuery { format := format, arguments := [] } := by
  intro argument member
  exact absurd member List.not_mem_nil

def AllSafe (queries : List Query) : Prop :=
  ∀ query ∈ queries, SafeQuery query

@[simp]
theorem allSafe_nil : AllSafe [] := by
  intro query member
  exact absurd member List.not_mem_nil

/-- Queries are safe when each of them is. -/
@[simp]
theorem allSafe_cons (query : Query) (queries : List Query) :
    AllSafe (query :: queries) ↔ SafeQuery query ∧ AllSafe queries :=
  List.forall_mem_cons

@[simp]
theorem allSafe_append (first second : List Query) :
    AllSafe (first ++ second) ↔ AllSafe first ∧ AllSafe second :=
  List.forall_mem_append

theorem harmless_nil : Harmless [] := by
  intro c member
  exact absurd member List.not_mem_nil

/-! ## Cut strings -/

/-- What `db_check_user_input` leaves is harmless. -/
theorem harmless_dbCheckUserInput {size : Nat} (input : CharArray size) :
    Harmless (dbCheckUserInput input).text := by
  intro c member unsafeChar
  have kept := CharArray.not_stops_of_mem_cutFirst member
  rw [List.contains_iff_mem.mpr unsafeChar] at kept
  exact Bool.noConfusion kept

/-- A harmless string stays so when it is shortened. -/
theorem harmless_shortened {text : CString} (harmless : Harmless text) :
    Harmless (shortened text) :=
  fun c member => harmless c (CharArray.mem_of_mem_strncpy_zero member)

/-! ## The user -/

/-- The query for a coin is safe for a harmless symbol. -/
theorem selectCoin_safe (build : Build) (around : Surroundings)
    {symbol : CString} (harmless : Harmless symbol) :
    SafeQuery (selectCoin build around symbol) := by
  rw [selectCoin]
  split
  · rw [safeQuery_cons, safeQuery_cons, safe_client]
    exact ⟨safe_server _, harmless, safeQuery_nil _⟩
  · rw [safeQuery_cons, safeQuery_cons, safe_client]
    exact ⟨harmless, harmless, safeQuery_nil _⟩

/-- The symbol that is looked up is harmless. -/
theorem dbCheckCoinSymbol_safe (build : Build) (around : Surroundings)
    {symbol : CString} (harmless : Harmless symbol) :
    AllSafe (dbCheckCoinSymbol build around symbol).1 ∧
      SafeArgument (dbCheckCoinSymbol build around symbol).2 := by
  rw [dbCheckCoinSymbol]
  split
  · constructor
    · rw [allSafe_cons]
      exact ⟨selectCoin_safe build around harmless, allSafe_nil⟩
    · dsimp only
      split
      · exact harmless
      · cases around.coinRow with
        | none => exact harmless_nil
        | some row => exact trivial
  · exact ⟨allSafe_nil, harmless_nil⟩

/-- The name of the account is harmless. -/
theorem userName_safe {around : Surroundings} {gift : Int}
    {client : YaampClient} {named : Named}
    (settled : userName around gift client = some named) :
    SafeArgument named.username := by
  have checked := harmless_dbCheckUserInput client.username
  rw [userName] at settled
  dsimp only at settled
  split at settled
  · split at settled
    · cases wallet : around.firstWallet with
      | none =>
          rw [wallet] at settled
          rw [← Option.some.inj settled]
          exact checked
      | some text =>
          rw [wallet] at settled
          rw [← Option.some.inj settled]
          exact trivial
    · exact absurd settled (by simp)
  · rw [← Option.some.inj settled]
    exact checked

/-- The query for a new account is safe. -/
theorem insertAccount_safe (around : Surroundings)
    {username symbol : Argument} (named : SafeArgument username)
    (stored : SafeArgument symbol) (gift : Int) :
    SafeQuery (insertAccount around username symbol gift) := by
  rw [insertAccount, safeQuery_cons, safeQuery_cons, safeQuery_cons,
    safeQuery_cons]
  exact ⟨named, stored, safe_integer _, safe_server _,
    safeQuery_nil _⟩

/-- The query that updates an account is safe. -/
theorem updateAccount_safe (around : Surroundings) {symbol : Argument}
    (stored : SafeArgument symbol) (gift userid : Int) :
    SafeQuery (updateAccount around symbol gift userid) := by
  simp only [updateAccount, safeQuery_cons, stored, safe_integer,
    safe_server, safeQuery_nil, and_self]

/-- Storing the account makes safe queries. -/
theorem storeUser_safe (build : Build) (around : Surroundings)
    (symbol : CharArray 16) {named : Named} (safe : SafeArgument named.username)
    (userid gift : Int) :
    AllSafe (storeUser build around symbol named userid gift).1 := by
  obtain ⟨asked, stored⟩ := dbCheckCoinSymbol_safe build around
    (harmless_dbCheckUserInput symbol)
  rw [storeUser]
  dsimp only
  split
  · exact asked
  · split
    · rw [allSafe_append, allSafe_cons]
      refine ⟨asked, ?_, allSafe_nil⟩
      exact insertAccount_safe around safe stored _
    · rw [allSafe_append, allSafe_cons]
      refine ⟨asked, ?_, allSafe_nil⟩
      exact updateAccount_safe around stored _ _

/-- `db_add_user` makes safe queries. -/
theorem dbAddUser_safe (build : Build) (around : Surroundings)
    (client : YaampClient) : AllSafe (dbAddUser build around client).1 := by
  rw [dbAddUser]
  dsimp only
  split
  · exact allSafe_nil
  · rename_i named settled
    have safe := userName_safe settled
    have select : SafeQuery (selectAccount named.username) := by
      rw [selectAccount, safeQuery_cons]
      exact ⟨safe, safeQuery_nil _⟩
    split
    · rw [allSafe_cons]
      exact ⟨select, storeUser_safe build around _ safe _ _⟩
    · cases around.account with
      | none =>
          rw [allSafe_cons]
          exact ⟨select, allSafe_nil⟩
      | some account =>
          rw [allSafe_cons]
          exact ⟨select, storeUser_safe build around _ safe _ _⟩

/-! ## The worker -/

/-- The query that clears a worker has no string. -/
theorem dbClearWorker_safe (client : YaampClient) :
    AllSafe (dbClearWorker client).1 := by
  rw [dbClearWorker]
  split
  · exact allSafe_nil
  · rw [allSafe_cons]
    rw [safeQuery_cons]
    exact ⟨⟨safe_integer _, safeQuery_nil _⟩, allSafe_nil⟩

/-- The query for a new worker is safe. -/
theorem insertWorker_safe (around : Surroundings) (client : YaampClient) :
    SafeQuery (insertWorker around (checkStrings client)) := by
  have username := harmless_dbCheckUserInput client.username
  have version :=
    harmless_shortened (harmless_dbCheckUserInput client.version)
  have password :=
    harmless_shortened (harmless_dbCheckUserInput client.password)
  have worker :=
    harmless_shortened (harmless_dbCheckUserInput client.worker)
  simp only [insertWorker, safeQuery_cons, safe_client,
    safe_integer, safe_server, safe_real,
    safeQuery_nil, true_and, and_true]
  exact ⟨username, version, password, worker⟩

/-- `db_add_worker` makes safe queries. -/
theorem dbAddWorker_safe (build : Build) (around : Surroundings)
    (client : YaampClient) : AllSafe (dbAddWorker build around client).1 := by
  rw [dbAddWorker]
  dsimp only
  rw [allSafe_append, allSafe_cons]
  exact ⟨dbClearWorker_safe client, insertWorker_safe around _, allSafe_nil⟩

/-! ## Requests -/

/-- The queries of an authorization up to the worker are safe. -/
theorem authorizeUser_safe (build : Build) (around : Surroundings)
    (client : YaampClient) :
    AllSafe (authorizeUser build around client).1 := by
  have user := dbAddUser_safe build around client
  rw [authorizeUser]
  split
  · dsimp only
    split
    · exact user
    · rw [allSafe_append]
      exact ⟨user, dbAddWorker_safe build around _⟩
  · exact allSafe_nil

/-- `client_authorize` makes safe queries. -/
theorem clientAuthorize_safe (build : Build) (around : Surroundings)
    (params : Params) (client : YaampClient) :
    AllSafe (clientAuthorize build around params client).1 := by
  rw [clientAuthorize]
  split
  · exact allSafe_nil
  · dsimp only
    split
    · exact allSafe_nil
    · split
      · exact allSafe_nil
      · rename_i named _
        have sent := authorizeUser_safe build around named
        split
        · exact allSafe_nil
        · split
          · exact allSafe_nil
          · split
            · rename_i queries ended
              rw [ended] at sent
              exact sent
            · rename_i queries stored went
              rw [went] at sent
              split
              · rw [allSafe_append]
                exact ⟨sent, dbClearWorker_safe stored⟩
              · exact sent

/-- Whatever the requests are, their queries are safe. -/
theorem serve_safe (build : Build) (client : YaampClient)
    (requests : List Request) : AllSafe (serve build client requests) := by
  induction requests generalizing client with
  | nil =>
      exact allSafe_nil
  | cons request requests ih =>
      cases request with
      | subscribe key find params =>
          exact ih (clientSubscribe key find params client)
      | authorize around params =>
          have sent := clientAuthorize_safe build around params client
          rw [serve]
          split
          · rename_i queries ended
            rw [ended] at sent
            exact sent
          · rename_i queries after went
            rw [went] at sent
            rw [allSafe_append]
            exact ⟨sent, ih after⟩

/--
Whatever a miner sends in `mining.subscribe` and `mining.authorize`, no string
of its in a query has a quote, a backslash or a space.
-/
theorem loginQueries_safe (build : Build) (requests : List Request) :
    AllSafe (clientThread build requests) :=
  serve_safe build YaampClient.initial requests

end YiimpStratum.User
