import YiimpStratum.Util.Json

/-!
# Reading a request

`client_thread` from the parsed request to the call of a handler, and what each
handler reads of the parameters.  A `json_value` is a type, a first word and a
pointer.  The first word holds the length of a string, an array or an object,
or the number; the pointer is not null for these three types only.  Most of the
code reads a word or the pointer without looking at the type.

A read through a pointer of the wrong type ends the run with a violation, and
so does an integer read as a double.
-/

namespace YiimpStratum.Dispatch

open YiimpStratum
open YiimpStratum.Util

/-- A read that does not fit the type of the value. -/
inductive Violation where
  /-- the string pointer of a value that is not a string -/
  | text (value : Json)
  /-- the elements of a value that is not an array -/
  | elements (value : Json)
  /-- an integer as a double -/
  | double (value : Json)

/-! ## The words of a value -/

/-- The first 32 bits of the first word, read as `u.array.length`. -/
def length : Json → Nat
  | .object members => members.length % 2 ^ 32
  | .array elements => elements.length % 2 ^ 32
  | .integer value => (BitVec.ofInt 32 value).toNat
  | .double value => value.bits.toNat % 2 ^ 32
  | .string text => text.length % 2 ^ 32
  | .boolean value => value.toNat
  | .null => 0

/-- The same bits, when `u.integer` is stored in an `int`. -/
def intMember (json : Json) : Int :=
  (BitVec.ofNat 32 (length json)).toInt

/-- The string at `u.string.ptr`, when the code has found it not null. -/
def pointerText : Json → Except Violation (Option CString)
  | .string text => .ok (some (textOf text))
  | .object members => .error (.text (.object members))
  | .array elements => .error (.text (.array elements))
  | _ => .ok none

/-- The string at `u.string.ptr`, read without a test. -/
def readText : Json → Except Violation CString
  | .string text => .ok (textOf text)
  | value => .error (.text value)

/-- `u.array.values[index]`, where the length has been compared with `index`. -/
def element (params : Json) (index : Nat) : Except Violation Json :=
  match params with
  | .array elements => .ok (elements[index]?.getD .null)
  | value => .error (.elements value)

/-- The number `u.dbl`; a value that is no number is read as zero here. -/
def readDouble : Json → Except Violation Double
  | .double value => .ok value
  | .integer value => .error (.double (.integer value))
  | _ => .ok Double.zero

/-! ## Handlers -/

/-- What the server compares the request with. -/
structure Surroundings where
  /-- `client->stats` and `client->reqid` -/
  stats : Bool
  reqid : Int
  /-- the algorithm is `equihash` -/
  equihash : Bool
  /-- the client is in `g_list_client` -/
  listed : Bool
  /-- `g_list_client` is full -/
  full : Bool
  tcpPassword : CString
  /-- the coins with these numbers are in `g_list_coind` -/
  coinListed : Int → Bool

/-- What a request makes the server do, with what was read of it. -/
inductive Outcome where
  | stop
  | result (result : Option Json)
  | subscribe (version notifyId : Option CString)
  | authorize (username password : Option CString)
  | alreadyLogged
  | badSubmit
  | submit (fields : List CString)
  | suggestDifficulty (value : Option Double)
  | badUpdate
  | updateBlock (coinid : Int) (hash : CString)
  | other (method : CString)

/-- A parameter that is read when there are more than `index` of them. -/
def optionalText (params : Json) (index : Nat) :
    Except Violation (Option CString) :=
  if index < length params then do
    let value ← element params index
    pointerText value
  else pure none

/-- `client_subscribe` -/
def clientSubscribe (params : Json) : Except Violation Outcome := do
  let version ← optionalText params 0
  let notifyId ← optionalText params 1
  pure (.subscribe version notifyId)

/-- `client_authorize` -/
def clientAuthorize (around : Surroundings) (params : Json) :
    Except Violation Outcome :=
  if around.listed then pure .alreadyLogged
  else do
    let password ← optionalText params 1
    if around.full then pure .stop
    else do
      let username ← optionalText params 0
      pure (.authorize username password)

/-- `valid_string_params`, from the parameter `index` on. -/
def validStringParams (params : Json) (index : Nat) :
    Nat → Except Violation Bool
  | 0 => pure true
  | count + 1 => do
      let value ← element params index
      if value.isString then validStringParams params (index + 1) count
      else pure false

/-- The strings of the parameters `1` to `count`. -/
def submitFields (params : Json) : Nat → Except Violation (List CString)
  | 0 => pure []
  | count + 1 => do
      let fields ← submitFields params count
      let value ← element params (count + 1)
      let text ← readText value
      pure (fields ++ [text])

/--
`client_submit` and `client_submit_equi`.  The second one does not look at a
sixth parameter; after the length of the job number has been checked they work
on copies of the strings.
-/
def clientSubmit (around : Surroundings) (params : Json) :
    Except Violation Outcome :=
  if length params < 5 then pure .badSubmit
  else do
    let valid ← validStringParams params 0 (length params)
    if ! valid then pure .badSubmit
    else do
      let value ← element params 1
      let jobid ← readText value
      if 32 < jobid.length then pure .badSubmit
      else do
        let count := if ! around.equihash && length params = 6 then 5 else 4
        let fields ← submitFields params count
        pure (.submit fields)

/-- `client_suggest_difficulty` -/
def clientSuggestDifficulty (params : Json) : Except Violation Outcome :=
  if 0 < length params then do
    let value ← element params 0
    let difficulty ← readDouble value
    pure (.suggestDifficulty (some difficulty))
  else pure (.suggestDifficulty none)

/-- `client_update_block` behind the password; `block_confirm` gets the hash. -/
def updateCoin (around : Surroundings) (params : Json) :
    Except Violation Outcome := do
  let second ← element params 1
  let coinid := intMember second
  if coinid = 0 ∨ around.coinListed coinid = false then pure .badUpdate
  else do
    let third ← element params 2
    let hash ← readText third
    pure (.updateBlock coinid hash)

/-- `client_update_block` -/
def clientUpdateBlock (around : Surroundings) (params : Json) :
    Except Violation Outcome :=
  if length params < 3 then pure .badUpdate
  else do
    let first ← element params 0
    let password ← pointerText first
    if password = some around.tcpPassword then updateCoin around params
    else pure .badUpdate

/-! ## The thread -/

/-- The chain of comparisons with the name of the method. -/
def dispatch (around : Surroundings) (method : CString) (params : Json) :
    Except Violation Outcome :=
  if method = "mining.subscribe".toList then clientSubscribe params
  else if method = "mining.authorize".toList then
    clientAuthorize around params
  else if method = "mining.submit".toList then clientSubmit around params
  else if method = "mining.suggest_difficulty".toList then
    clientSuggestDifficulty params
  else if method = "mining.update_block".toList then
    clientUpdateBlock around params
  else pure (.other method)

/-- `json_get_string` on the members of a request: the value behind it. -/
def pointerOf (members : List (CString × Json)) (key : CString) :
    Option Json :=
  (Json.lookup members key).filter fun value =>
    value.isString || value.isContainer

/-- `client_thread` after the identifier has been read. -/
def serveMethod (around : Surroundings) (members : List (CString × Json)) :
    Except Violation Outcome :=
  match pointerOf members "method".toList with
  | none =>
      let idInt := ((Json.lookup members "id".toList).map intMember).getD 0
      if around.stats && idInt = around.reqid then
        pure (.result (Json.lookup members "result".toList))
      else pure .stop
  | some method =>
      match Json.lookup members "params".toList with
      | none => pure .stop
      | some params => do
          let name ← readText method
          dispatch around name params

/-- The length of the identifier, when it has a pointer. -/
def idLength (members : List (CString × Json)) : Except Violation Nat :=
  match pointerOf members "id".toList with
  | none => pure 0
  | some id => do
      let text ← readText id
      pure text.length

/-- A turn of the loop of `client_thread`, for a request with these members. -/
def clientThread (around : Surroundings) (members : List (CString × Json)) :
    Except Violation Outcome := do
  let length ← idLength members
  if 32 < length then pure .stop else serveMethod around members

end YiimpStratum.Dispatch
