import YiimpStratum.Library.Delimited
import YiimpStratum.Util.Hex

/-!
# Reading requests from a socket

`socket_nextjson` with its loop over `recv`, its rules for the end of a message
and the bytes that it keeps for the next call.

What the peer sends comes in pieces, as the calls of `recv` would find them
with room enough; a piece for which there is no room is divided.  An empty
piece, or the end of the pieces, stands for an end of the connection.  Whether
`json_parse` accepts a text is a parameter.
-/

namespace YiimpStratum.Socket

open YiimpStratum
open YiimpStratum.Util
open YiimpStratum.Delimited

/-- `YAAMP_SOCKET_BUFSIZE` -/
abbrev yaampSocketBufsize : Nat := 4 * 1024

/-- The `buflen` bytes of the buffer, and the pieces that will arrive. -/
structure YaampSocket where
  buffer : List Char
  incoming : List (List Char)

/-- The string at the start of an array. -/
def cString (bytes : List Char) : CString :=
  before '\x00' bytes

/-- The condition under which the loop over `recv` ends. -/
def filled (buffer : List Char) : Bool :=
  (cString buffer).contains '}' ||
    decide (yaampSocketBufsize - 1 ≤ buffer.length)

/-- The loop over `recv`; `none` when it returns without a request. -/
def receive : List Char → List (List Char) →
    Option (List Char × List (List Char))
  | buffer, [] => if filled buffer then some (buffer, []) else none
  | buffer, chunk :: chunks =>
      if filled buffer then some (buffer, chunk :: chunks)
      else if chunk = [] then none
      else
        let room := yaampSocketBufsize - buffer.length - 1
        if chunk.length ≤ room then receive (buffer ++ chunk) chunks
        else
          -- the buffer is full then, which ends the loop
          some (buffer ++ chunk.take room, chunk.drop room :: chunks)

/-- The text from `b` to the end `p` of the first message, if any. -/
def firstMessage (b : CString) : Option CString :=
  let p := onward '}' b
  if p = [] then none
  else if '{' ∈ p then some (before '}' b ++ before '{' p)
  else some (throughLast '}' b)

/-- The text handed to `json_parse` if any, and the socket unless `NULL`. -/
structure Call where
  handed : Option CString
  socket : Option YaampSocket

/-- The bytes that stay in the buffer after a message. -/
def kept (buffer : List Char) (b message : CString) : List Char :=
  let p := onward '{' (b.drop message.length)
  if p = [] then [] else buffer.drop ((cString buffer).length - p.length)

/-- The part of `socket_nextjson` behind its loop. -/
def takeMessage (parses : CString → Bool) (buffer : List Char)
    (incoming : List (List Char)) : Call :=
  let b := onward '{' (cString buffer)
  if b = [] then { handed := none, socket := none }
  else
    match firstMessage b with
    | none => { handed := none, socket := none }
    | some message =>
        { handed := some message
          socket :=
            if parses message then
              some
                { buffer := kept buffer b message
                  incoming := incoming }
            else none }

def socketNextjson (parses : CString → Bool) (socket : YaampSocket) : Call :=
  match receive socket.buffer socket.incoming with
  | none => { handed := none, socket := none }
  | some (buffer, incoming) => takeMessage parses buffer incoming

/-- The texts that so many successive calls hand to `json_parse`. -/
def handed (parses : CString → Bool) : Nat → YaampSocket → List CString
  | 0, _ => []
  | calls + 1, socket =>
      let call := socketNextjson parses socket
      call.handed.toList ++
        match call.socket with
        | none => []
        | some next => handed parses calls next

/-- A socket as `socket_initialize` leaves it. -/
def initialized (chunks : List (List Char)) : YaampSocket where
  buffer := []
  incoming := chunks

end YiimpStratum.Socket
