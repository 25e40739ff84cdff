import Mathlib.Data.Rat.Defs
import YiimpStratum.Library.CharArray
import YiimpStratum.Util.Double
import YiimpStratum.Util.Strings

/-!
# Login and the queries it makes

`mining.subscribe` and `mining.authorize` as far as strings of the miner go:
from the parameters into the arrays of the client, through the functions of
`user.cpp` that cut them, and into queries.

What the database, the lists and the configuration answer is part of the
request.  An authorization that returns `false` ends the connection.

Every string of the miner is cut at the first unwanted character just before
it gets into a query, whatever the earlier functions left of it.
-/

namespace YiimpStratum.Db

open YiimpStratum.Util

/-! ## Queries -/

/-- An argument of `db_query`. -/
inductive Argument where
  /-- a string that the miner chose -/
  | client (text : CString)
  /-- a string from the database, the configuration or the socket -/
  | server (text : CString)
  | integer (value : Int)
  | real (value : ℚ)
  | number (value : Number)

/-- A call of `db_query`. -/
structure Query where
  format : String
  arguments : List Argument

end YiimpStratum.Db

namespace YiimpStratum.User

open YiimpStratum
open YiimpStratum.Util
open YiimpStratum.Db

/-! ## Cutting -/

/-- The characters that `db_check_user_input` looks for. -/
def unwanted : CString :=
  " \"'\\".toList

/-- `db_check_user_input` -/
def dbCheckUserInput {size : Nat} (input : CharArray size) : CharArray size :=
  input.cutFirst (unwanted.contains ·)

/-- The characters that `db_clean_string` keeps. -/
def isClean (c : Char) : Bool :=
  isdigit c || isalpha c || "=,;.".toList.contains c ||
    "/-_".toList.contains c

/-- `db_clean_string`, which looks at `strlen & 0x1FF` characters. -/
def dbCleanString {size : Nat} (string : CharArray size) : CharArray size :=
  let len := string.text.length % 512
  match (string.text.take len).findIdx? (! isClean ·) with
  | some index => string.cut index
  | none => string

/-- `is_base58` -/
def isBase58 (input : CString) : Bool :=
  input.all fun c =>
    (('1' ≤ c && c ≤ '9') || isalpha c) && ! "IOl".toList.contains c

/-! ## State and surroundings -/

/-- How the server is compiled. -/
structure Build where
  noMysql : Bool
  noExchange : Bool
  allowCustomDonations : Bool

/-- The fields of `YAAMP_CLIENT` that the login fills or sends in queries. -/
structure YaampClient where
  notifyId : CharArray 1024
  version : CharArray 1024
  username : CharArray 1024
  password : CharArray 1024
  worker : CharArray 1024
  userid : Int
  workerid : Int
  donation : Int
  /-- the client is in `g_list_client` -/
  listed : Bool

/-- The client of a new connection. -/
def YaampClient.initial : YaampClient where
  notifyId := CharArray.zero
  version := CharArray.zero
  username := CharArray.zero
  password := CharArray.zero
  worker := CharArray.zero
  userid := 0
  workerid := 0
  donation := 0
  listed := false

/-- The parameters: `none` stands for a value without a string. -/
abbrev Params := List (Option (List Char))

/-- The string of one parameter, up to a terminator in it. -/
def stringParam (params : Params) (index : Nat) : Option CString :=
  (params[index]?.join).map textOf

/-- What `client_find_notify_id` finds. -/
inductive Found where
  | reconnecting (userid workerid : Int)
  | connected
  | missing

/-- The row of `accounts` for a name. -/
structure Account where
  id : Int
  isLocked : Bool
  donation : Option Int

/-- What the server has and what the database answers at an authorization. -/
structure Surroundings where
  ip : CString
  algo : CString
  time : Int
  pid : Int
  /-- `g_list_client` is full -/
  full : Bool
  /-- the outcome of `client_initialize_multialgo` -/
  reset : Bool
  /-- `difficulty_actual` after `client_initialize_difficulty` -/
  difficultyActual : ℚ
  /-- the wallet of the first coin -/
  firstWallet : Option CString
  /-- the result of the query for the account, if there is one, and its row -/
  account : Option (Option Account)
  /-- the row of the query for the coin -/
  coinRow : Option CString
  userInsertId : Int
  workerInsertId : Int
  /-- `g_autoexchange`, or the outcome of `client_validate_user_address` -/
  validAddress : Bool

/-! ## `mining.subscribe` -/

/-- `client_subscribe`, with the key that `get_random_key` draws. -/
def clientSubscribe (key : CString) (find : CString → Found) (params : Params)
    (client : YaampClient) : YaampClient :=
  let client := { client with notifyId := client.notifyId.strcpy key }
  let client :=
    match stringParam params 0 with
    | some version =>
        { client with version := client.version.strncpy version 1023 }
    | none => client
  if 1 < params.length then
    let notifyId :=
      ((CharArray.zero : CharArray 1024).strncpy
        ((stringParam params 1).getD []) 1023).text
    match if notifyId = [] then Found.missing else find notifyId with
    | Found.reconnecting userid workerid =>
        { client with
          notifyId := client.notifyId.strncpy notifyId 1023
          userid := userid
          workerid := workerid }
    | Found.connected =>
        { client with notifyId := client.notifyId.strncpy notifyId 1023 }
    | Found.missing => client
  else client

/-! ## `db_add_user` -/

/-- The symbol of a coin in the password. -/
def passwordSymbol (password : CString) : CharArray 16 :=
  let found :=
    (strstr "c=".toList password).or (strstr "s=".toList password)
  let symbol : CharArray 16 :=
    match found with
    | some p => CharArray.zero.strncpy (p.drop 2) 15
    | none => CharArray.zero
  symbol.cutFirst (· == ',')

/-- The donation in the password. -/
def passwordGift (build : Build) (password : CString) : Int :=
  if build.allowCustomDonations then
    match strstr "g=".toList password with
    | some p => min (atoi (p.drop 2)) 100
    | none => -1
  else -1

/-- The query of `db_check_coin_symbol`. -/
def selectCoin (build : Build) (around : Surroundings) (symbol : CString) :
    Query :=
  if build.noExchange then
    { format := "SELECT symbol FROM coins WHERE installed AND algo='%s' AND symbol='%s'"
      arguments := [.server around.algo, .client symbol] }
  else
    { format := "SELECT symbol FROM coins WHERE installed AND (symbol='%s' OR symbol2='%s')"
      arguments := [.client symbol, .client symbol] }

/-- `db_check_coin_symbol`: the query and the symbol afterwards. -/
def dbCheckCoinSymbol (build : Build) (around : Surroundings)
    (symbol : CString) : List Query × Argument :=
  if 2 ≤ symbol.length ∧ symbol.length ≤ 12 then
    ([selectCoin build around symbol],
      if build.noMysql then .client symbol
      else
        match around.coinRow with
        | some row => .server row
        | none => .client [])
  else ([], .client [])

/-- The client and the locals of `db_add_user` after the names are settled. -/
structure Named where
  client : YaampClient
  /-- the name as an argument -/
  username : Argument
  gift : Int

/-- The names that need no address. -/
def guestNames : List CString :=
  ["benchmark".toList, "donate".toList, "test".toList]

/-- A guest gets the wallet of the first coin for its name. -/
def guestLogin (wallet : CString) (gift : Int) (client : YaampClient) : Named :=
  let worker :=
    if client.worker.text = [] then
      client.worker.strcpy client.username.text
    else client.worker
  let username := client.username.strcpy wallet
  { client :=
      { client with
        worker := worker
        username := username
        password :=
          if username.text = "benchmark".toList then
            client.password.strcat ",stats".toList
          else client.password }
    username := .server username.text
    gift := if username.text = "donate".toList then 100 else gift }

/-- The name of the account; there is none when the address is too short. -/
def userName (around : Surroundings) (gift : Int) (client : YaampClient) :
    Option Named :=
  let client := { client with username := dbCheckUserInput client.username }
  let named : Named :=
    { client := client, username := .client client.username.text, gift := gift }
  if client.username.text.length < 30 then
    if client.username.text ∈ guestNames then
      match around.firstWallet with
      | some wallet => some (guestLogin wallet gift client)
      | none => some named
    else none
  else some named

/-- The user number and the donation after the row of the account. -/
def applyAccount (account : Option Account) (userid gift : Int) : Int × Int :=
  match account with
  | none => (userid, gift)
  | some account =>
      (if account.isLocked then -1 else account.id,
        if gift = -1 then account.donation.getD 0 else gift)

/-- The query that looks up the account. -/
def selectAccount (username : Argument) : Query where
  format := "SELECT id, is_locked, logtraffic, coinid, donation FROM accounts WHERE username='%s'"
  arguments := [username]

/-- The query for a new account. -/
def insertAccount (around : Surroundings) (username symbol : Argument)
    (gift : Int) : Query where
  format := "INSERT INTO accounts (username, coinsymbol, balance, donation, hostaddr) values ('%s', '%s', 0, %d, '%s')"
  arguments := [username, symbol, .integer gift, .server around.ip]

/-- The query for an account that exists. -/
def updateAccount (around : Surroundings) (symbol : Argument)
    (gift userid : Int) : Query where
  format := "UPDATE accounts SET coinsymbol='%s', swap_time=%u, donation=%d, hostaddr='%s' WHERE id=%d AND balance = 0 AND (SELECT COUNT(id) FROM payouts WHERE account_id=%d AND tx IS NULL) = 0 AND (SELECT pending FROM balanceuser WHERE userid=%d ORDER by time DESC LIMIT 1) = 0"
  arguments :=
    [symbol, .integer around.time, .integer gift, .server around.ip,
      .integer userid, .integer userid, .integer userid]

/-- The part of `db_add_user` after the account has been looked up. -/
def storeUser (build : Build) (around : Surroundings) (symbol : CharArray 16)
    (named : Named) (userid gift : Int) : List Query × YaampClient :=
  let checked :=
    dbCheckCoinSymbol build around (dbCheckUserInput symbol).text
  let gift := max gift 0
  let client :=
    { named.client with userid := userid, donation := gift }
  if userid = -1 then (checked.1, client)
  else if userid = 0 ∧ 30 ≤ client.username.text.length then
    (checked.1 ++ [insertAccount around named.username checked.2 gift],
      { client with
        userid := if build.noMysql then 0 else around.userInsertId })
  else (checked.1 ++ [updateAccount around checked.2 gift userid], client)

/-- The strings as `db_add_user` cleans them first. -/
def cleanStrings (client : YaampClient) : YaampClient :=
  { client with
    username := dbCleanString client.username
    password := dbCleanString client.password
    version := dbCleanString client.version
    notifyId := dbCleanString client.notifyId
    worker := dbCleanString client.worker }

/-- `db_add_user` -/
def dbAddUser (build : Build) (around : Surroundings) (client : YaampClient) :
    List Query × YaampClient :=
  let client := cleanStrings client
  let symbol := passwordSymbol client.password.text
  match userName around (passwordGift build client.password.text) client with
  | none => ([], { client with username := dbCheckUserInput client.username })
  | some named =>
      let select := selectAccount named.username
      if build.noMysql then
        let stored :=
          storeUser build around symbol named named.client.userid named.gift
        (select :: stored.1, stored.2)
      else
        match around.account with
        | none => ([select], named.client)
        | some account =>
            let found := applyAccount account named.client.userid named.gift
            let stored :=
              storeUser build around symbol named found.1 found.2
            (select :: stored.1, stored.2)

/-! ## `db_add_worker` -/

/-- `db_clear_worker` -/
def dbClearWorker (client : YaampClient) : List Query × YaampClient :=
  if client.workerid = 0 then ([], client)
  else
    ([{ format := "DELETE FROM workers WHERE id=%d"
        arguments := [.integer client.workerid] }],
      { client with workerid := 0 })

/-- The strings as `db_add_worker` cuts them. -/
def checkStrings (client : YaampClient) : YaampClient :=
  { client with
    username := dbCheckUserInput client.username
    version := dbCheckUserInput client.version
    password := dbCheckUserInput client.password
    worker := dbCheckUserInput client.worker }

/-- A local array of `db_add_worker`. -/
def shortened (text : CString) : CString :=
  ((CharArray.zero : CharArray 128).strncpy text 64).text

/-- The query for the worker. -/
def insertWorker (around : Surroundings) (client : YaampClient) : Query where
  format := "INSERT INTO workers (userid, ip, name, difficulty, version, password, worker, algo, time, pid) VALUES (%d, '%s', '%s', %f, '%s', '%s', '%s', '%s', %d, %d)"
  arguments :=
    [.integer client.userid, .server around.ip,
      .client client.username.text, .real around.difficultyActual,
      .client (shortened client.version.text),
      .client (shortened client.password.text),
      .client (shortened client.worker.text), .server around.algo,
      .integer around.time, .integer around.pid]

/-- `db_add_worker` -/
def dbAddWorker (build : Build) (around : Surroundings) (client : YaampClient) :
    List Query × YaampClient :=
  let cleared := dbClearWorker client
  let client := checkStrings cleared.2
  (cleared.1 ++ [insertWorker around client],
    { client with
      workerid := if build.noMysql then 0 else around.workerInsertId })

/-! ## `mining.authorize` -/

/-- The names in the first parameter; `none` when the request is refused. -/
def authorizeNames (params : Params) (client : YaampClient) :
    Option YaampClient :=
  match stringParam params 0 with
  | none => some client
  | some text =>
      let username := dbCheckUserInput (client.username.strncpy text 1023)
      let len := username.text.length
      if len = 0 then none
      else
        match username.text.findIdx? (".,;:".toList.contains ·) with
        | some sep =>
            let worker :=
              client.worker.strncpy (textOf (username.cells.drop (sep + 1)))
                (1023 - len)
            if 35 < (username.cut sep).text.length then none
            else
              some { client with
                username := username.cut sep, worker := worker }
        | none =>
            if 35 < len then none
            else some { client with username := username }

/-- The part of `client_authorize` that goes to the database. -/
def authorizeUser (build : Build) (around : Surroundings)
    (client : YaampClient) : List Query × Option YaampClient :=
  if client.userid = 0 ∨ client.workerid = 0 then
    let added := dbAddUser build around client
    if added.2.userid = -1 then (added.1, none)
    else
      let worker := dbAddWorker build around added.2
      (added.1 ++ worker.1, some worker.2)
  else ([], some client)

/-- `client_authorize` -/
def clientAuthorize (build : Build) (around : Surroundings) (params : Params)
    (client : YaampClient) : List Query × Option YaampClient :=
  if client.listed then ([], none)
  else
    let client :=
      match stringParam params 1 with
      | some text =>
          { client with password := client.password.strncpy text 1023 }
      | none => client
    if around.full then ([], none)
    else
      match authorizeNames params client with
      | none => ([], none)
      | some client =>
          if ! isBase58 client.username.text then ([], none)
          else if around.reset then ([], none)
          else
            match authorizeUser build around client with
            | (queries, none) => (queries, none)
            | (queries, some client) =>
                if ! around.validAddress then
                  (queries ++ (dbClearWorker client).1, none)
                else (queries, some { client with listed := true })

/-! ## A connection -/

/-- A request, with what the server answers it from. -/
inductive Request where
  | subscribe (key : CString) (find : CString → Found) (params : Params)
  | authorize (around : Surroundings) (params : Params)

/-- The queries that the requests of a connection make. -/
def serve (build : Build) : YaampClient → List Request → List Query
  | _, [] => []
  | client, .subscribe key find params :: requests =>
      serve build (clientSubscribe key find params client) requests
  | client, .authorize around params :: requests =>
      match clientAuthorize build around params client with
      | (queries, none) => queries
      | (queries, some client) => queries ++ serve build client requests

/-- The queries of a connection from its start, as `client_thread` serves it. -/
def clientThread (build : Build) (requests : List Request) : List Query :=
  serve build YaampClient.initial requests

end YiimpStratum.User
