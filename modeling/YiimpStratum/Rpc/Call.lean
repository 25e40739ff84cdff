import YiimpStratum.Parse.Machine
import YiimpStratum.Util.Strings

/-!
# Calls of a daemon

`rpc_do_call` behind the request: the loop over `recv` up to the blank line of
the response, the headers that it looks at, and the loop over `recv` for the
body.  `rpc_call` parses the body.

The response comes in pieces, as the calls of `recv` would find them with room
enough.  An empty piece, or the end of the pieces, stands for an end of the
connection.  What is logged is left out.
-/

namespace YiimpStratum.Rpc

open YiimpStratum
open YiimpStratum.Util
open YiimpStratum.Parse

/-! ## Headers -/

/-- `YAAMP_SMALLBUFSIZE` -/
abbrev yaampSmallbufsize : Nat := 32 * 1024

def lineBreak : CString :=
  ['\x0d', '\n']

def blankLine : CString :=
  lineBreak ++ lineBreak

/-- `header_value`; the array for the value has 1024 cells. -/
def headerValue (data search : CString) : CString :=
  match strstr search data with
  | none => []
  | some p =>
      let p := (p.drop search.length).dropWhile fun c => c == ' ' || c == ':'
      match strstr lineBreak p with
      | none => p.take 1024
      | some p2 => (p.take (p.length - p2.length)).take 1023

/-- `atoi` with the conversion of the `long` that it reads. -/
def atoiInt (text : CString) : Int :=
  toInt (max (-2 ^ 63) (min (2 ^ 63 - 1) (atoi text)))

/-! ## Receiving -/

/-- The bytes of a call of `recv`, unless it fails, and what will arrive. -/
def recv (room : Nat) :
    List (List Char) → Option (List Char) × List (List Char)
  | [] => (none, [])
  | chunk :: chunks =>
      if room = 0 then (none, chunk :: chunks)
      else if chunk = [] then (none, chunks)
      else if chunk.length ≤ room then (some chunk, chunks)
      else (some (chunk.take room), chunk.drop room :: chunks)

/-- How much may still arrive. -/
def pending (incoming : List (List Char)) : Nat :=
  incoming.flatten.length

theorem recv_some {room : Nat} {incoming rest : List (List Char)}
    {bytes : List Char} (received : recv room incoming = (some bytes, rest)) :
    bytes ≠ [] ∧ bytes.length ≤ room ∧
      bytes ++ rest.flatten = incoming.flatten := by
  cases incoming with
  | nil => cases received
  | cons chunk chunks =>
      by_cases full : room = 0
      · rw [recv, if_pos full] at received
        cases received
      by_cases ended : chunk = []
      · rw [recv, if_neg full, if_pos ended] at received
        cases received
      by_cases fits : chunk.length ≤ room
      · rw [recv, if_neg full, if_neg ended, if_pos fits] at received
        cases received
        exact ⟨ended, fits, rfl⟩
      · rw [recv, if_neg full, if_neg ended, if_neg fits] at received
        cases received
        refine ⟨?_, ?_, ?_⟩
        · rw [← List.length_pos_iff, List.length_take]
          omega
        · rw [List.length_take]
          omega
        · rw [List.flatten_cons, List.flatten_cons, ← List.append_assoc,
            List.take_append_drop]

theorem pending_recv {room : Nat} {incoming rest : List (List Char)}
    {bytes : List Char} (received : recv room incoming = (some bytes, rest)) :
    pending rest < pending incoming := by
  obtain ⟨nonempty, -, same⟩ := recv_some received
  have pos := List.length_pos_iff.mpr nonempty
  rw [pending, pending, ← same, List.length_append]
  omega

/-- The loop up to the blank line. -/
def receiveHead (buffer : List Char) (incoming : List (List Char)) :
    Option (List Char) × List (List Char) :=
  match _received :
      recv (yaampSmallbufsize - buffer.length - 1) incoming with
  | (none, rest) => (none, rest)
  | (some bytes, rest) =>
      let buffer := buffer ++ bytes
      if (strstr blankLine (textOf buffer)).isSome then (some buffer, rest)
      else receiveHead buffer rest
termination_by pending incoming
decreasing_by exact pending_recv _received

/-- The loop for the body, of which some bytes came with the head. -/
def receiveBody (datalen : Nat) (databuf : List Char)
    (incoming : List (List Char)) : Option (List Char) × List (List Char) :=
  if databuf.length < datalen then
    match _received : recv (datalen - databuf.length) incoming with
    | (none, rest) => (none, rest)
    | (some bytes, rest) => receiveBody datalen (databuf ++ bytes) rest
  else (some databuf, incoming)
termination_by pending incoming
decreasing_by exact pending_recv _received

/-! ## The call -/

/-- What is returned; `fault` is a write outside of the allocated memory. -/
inductive Reply where
  | text (databuf : List Char)
  | null
  | fault
  deriving DecidableEq

/-- The reply, and the connection, which may have been opened anew. -/
structure Answer where
  reply : Reply
  incoming : List (List Char)
  reconnects : Bool
  deriving DecidableEq

/-- The rest of the body, and what the header says about the connection. -/
def rpcFinishBody (text : CString) (datalen : Nat) (databuf : List Char)
    (incoming : List (List Char)) : Answer :=
  match receiveBody datalen databuf incoming with
  | (none, _) => { reply := .null, incoming := [], reconnects := true }
  | (some databuf, incoming) =>
      if headerValue text "Connection:".toList = "close".toList then
        { reply := .text databuf, incoming := [], reconnects := true }
      else
        { reply := .text databuf, incoming := incoming, reconnects := false }

/-- The body of the response whose head and first bytes are in the buffer. -/
def rpcReadBody (text : CString) (incoming : List (List Char)) : Answer :=
  let datalen := atoiInt (headerValue text "Content-Length:".toList)
  if datalen = 0 then
    { reply := .null, incoming := incoming, reconnects := false }
  else
    match strstr blankLine text with
    | none => { reply := .fault, incoming := incoming, reconnects := false }
    | some p =>
        let databuf := p.drop blankLine.length
        if toInt (datalen + 1) < 0 then
          -- so much memory is not there
          { reply := .null, incoming := incoming, reconnects := false }
        else if datalen < databuf.length then
          { reply := .fault, incoming := incoming, reconnects := false }
        else rpcFinishBody text datalen.toNat databuf incoming

/-- `rpc_do_call` behind the request. -/
def rpcDoCall (incoming : List (List Char)) : Answer :=
  match receiveHead [] incoming with
  | (none, incoming) =>
      { reply := .null, incoming := incoming, reconnects := false }
  | (some buffer, incoming) =>
      let text := textOf buffer
      if ' ' ∉ text then
        { reply := .null, incoming := incoming, reconnects := false }
      else if
          headerValue text "Transfer-Encoding:".toList = "chunked".toList then
        { reply := .null, incoming := [], reconnects := true }
      else rpcReadBody text incoming

/--
The text of a call, with the number that `rpc->id` has then.  Beside the
parameters there is room for a method of 980 characters.
-/
def message (method : CString) (params : Option CString) (id : Nat) :
    CString :=
  match params with
  | some params =>
      "\x7b\"method\":\"".toList ++ method ++ "\",\"params\":".toList ++
        params ++ ",\"id\":\"".toList ++ Nat.toDigits 10 id ++
          "\"\x7d".toList
  | none =>
      "\x7b\"method\":\"".toList ++ method ++ "\",\"id\":\"".toList ++
        Nat.toDigits 10 id ++ "\"\x7d".toList

/-- The type of the first value is `json_object`. -/
def isObject (values : List JsonValue) : Bool :=
  match values.head? with
  | some ⟨_, .object _⟩ => true
  | _ => false

/-- Any value but an object is freed, and `NULL` is returned. -/
def onlyObject : Parsed → Parsed
  | .values values => if isObject values then .values values else .null
  | .null => .null
  | .fault => .fault

/-- `rpc_call` behind the request, with a number of rounds for the parser. -/
def rpcCall (doubles : Doubles) (incoming : List (List Char)) (rounds : Nat) :
    Option Parsed :=
  match (rpcDoCall incoming).reply with
  | .null => some .null
  | .fault => some .fault
  | .text buffer => (jsonParse doubles (textOf buffer) rounds).map onlyObject

end YiimpStratum.Rpc
