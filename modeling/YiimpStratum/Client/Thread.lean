import YiimpStratum.Parse.Accepted
import YiimpStratum.Socket.Framing

/-!
# The thread of a client

The loop of `client_thread` over the bytes of a socket: `socket_nextjson` with
its parser, and a turn for each request.  What a turn does with a request is a
parameter, and so is the limit on bad submits that is tested in front of it.

The loop does to the state of the client what the turns do with the requests
one after the other, wherever the calls of `recv` divide their bytes.
-/

namespace YiimpStratum.Client

open YiimpStratum
open YiimpStratum.Util
open YiimpStratum.Parse
open YiimpStratum.Socket
open YiimpStratum.Delimited
open YiimpStratum.Rounds

/-! ## The loop -/

/-- The turns of a client. -/
structure Handlers (State : Type) where
  /-- there were too many bad submits -/
  bad : State → Bool
  /-- the state after a request, and whether the loop goes on -/
  serve : State → Json → State × Bool

/-- `socket_nextjson` with a number of rounds for its parser. -/
def nextjson (doubles : Doubles) (rounds : Nat) (socket : YaampSocket) :
    Option (Parsed × Option YaampSocket) :=
  let call := socketNextjson (fun _ => true) socket
  match call.handed with
  | none => some (.null, none)
  | some text =>
      (jsonParse doubles text rounds).map fun parsed => (parsed, call.socket)

/-- What a turn reads of the memory of the parser. -/
def request : Parsed → Option Json
  | .values values => readValue values values.length 0
  | .null => none
  | .fault => none

section Loop

variable {State : Type} (doubles : Doubles) (handlers : Handlers State)

/-- The loop, with a number of turns, and of rounds for the parser. -/
def clientLoop (rounds : Nat) : Nat → State → YaampSocket → Option State
  | 0, _, _ => none
  | turns + 1, state, socket =>
      if handlers.bad state then some state
      else do
        let (parsed, next) ← nextjson doubles rounds socket
        match request parsed, next with
        | some json, some next =>
            let turn := handlers.serve state json
            if turn.2 then clientLoop rounds turns turn.1 next
            else some turn.1
        | _, _ => some state

/-- The turns for requests one after the other. -/
def served : State → List Json → State
  | state, [] => state
  | state, json :: others =>
      if handlers.bad state then state
      else
        let turn := handlers.serve state json
        if turn.2 then served turn.1 others else turn.1

end Loop

/-! ## Requests -/

open scoped Classical in
/-- The text has a value. -/
noncomputable def accepts (doubles : Doubles) (text : CString) : Bool :=
  decide (∃ value, Denotes doubles text value)

open scoped Classical in
theorem accepts_of_denotes {doubles : Doubles} {text : CString} {value : Json}
    (denotes : Denotes doubles text value) : accepts doubles text = true := by
  rw [accepts, decide_eq_true_iff]
  exact ⟨value, denotes⟩

/-- The text of an object, and what it denotes in front of any other text. -/
structure Request (doubles : Doubles) where
  inner : List Char
  value : Json
  noNul : '\x00' ∉ inner
  short : inner.length + 2 < yaampSocketBufsize
  derives : ∀ rest,
    Derives doubles (.value value) ('{' :: (inner ++ '}' :: rest)) rest

theorem trailing_of_isWhitespace {blanks : List Char}
    (all : ∀ c ∈ blanks, Parse.isWhitespace c = true) : Trailing blanks := by
  induction blanks with
  | nil => exact Trailing.nil
  | cons c blanks ih =>
      obtain ⟨first, others⟩ := List.forall_mem_cons.mp all
      exact Trailing.blank first (ih others)

namespace Request

variable {doubles : Doubles} (request : Request doubles)

/-- Blanks behind the object do not count. -/
theorem denotes {blanks : List Char}
    (all : ∀ c ∈ blanks, Parse.isWhitespace c = true) :
    Denotes doubles ('{' :: (request.inner ++ ['}']) ++ blanks)
      request.value := by
  refine ⟨blanks, ?_, trailing_of_isWhitespace all⟩
  have derives := request.derives blanks
  rw [List.cons_append, List.append_assoc, List.singleton_append,
    skipMark_cons (by decide)]
  exact derives

noncomputable def toMessage : Message (accepts doubles) where
  inner := request.inner
  noNul := request.noNul
  short := request.short
  accepted := by
    have denotes := @denotes doubles request [] (by simp)
    rw [List.append_nil] at denotes
    exact accepts_of_denotes denotes
  acceptedLine :=
    accepts_of_denotes
      (@denotes doubles request ['\n'] (List.forall_mem_singleton.mpr rfl))

theorem text_toMessage :
    request.toMessage.text = '{' :: (request.inner ++ ['}']) :=
  rfl

end Request

/-- A request with no braces but its own, and room for a line break. -/
structure PlainRequest (doubles : Doubles) extends Request doubles where
  noOpen : '{' ∉ inner
  noClose : '}' ∉ inner
  length_le : inner.length + 2 ≤ 4094

noncomputable def PlainRequest.toFlat {doubles : Doubles}
    (request : PlainRequest doubles) : FlatRequest (accepts doubles) where
  toMessage := request.toMessage
  oneOpen := by
    have opens := List.count_eq_zero.mpr request.noOpen
    rw [Request.text_toMessage, List.count_cons, List.count_append, opens]
    rfl
  oneClose := by
    have closes := List.count_eq_zero.mpr request.noClose
    rw [Request.text_toMessage, List.count_cons, List.count_append, closes]
    rfl
  length_le := by
    have fits := request.length_le
    rw [Request.text_toMessage, List.length_cons, List.length_append,
      List.length_singleton]
    omega

/-! ## A call for a request -/

section Calls

variable {doubles : Doubles}

/-- What is handed over does not depend on the parser. -/
theorem handed_eq (parses parses' : CString → Bool) (socket : YaampSocket) :
    (socketNextjson parses socket).handed =
      (socketNextjson parses' socket).handed := by
  rw [socketNextjson, socketNextjson]
  split
  · rfl
  · rw [takeMessage, takeMessage]
    split
    · rfl
    · split <;> rfl

theorem socketNextjson_accepted {parses : CString → Bool}
    {socket next : YaampSocket} {text : CString}
    (call :
      socketNextjson parses socket =
        { handed := some text, socket := some next }) :
    socketNextjson (fun _ => true) socket =
      { handed := some text, socket := some next } := by
  rw [socketNextjson] at call ⊢
  split at call
  · cases call
  · rw [takeMessage] at call ⊢
    split at call
    · cases call
    · rename_i inside
      rw [if_neg inside]
      split at call
      · cases call
      · split at call
        · exact call
        · cases call

theorem parseWhitespace {c : Char} (blank : c.isWhitespace = true) :
    Parse.isWhitespace c = true := by
  simp only [Char.isWhitespace, Bool.or_eq_true, decide_eq_true_eq] at blank
  rcases blank with ((rfl | rfl) | rfl) | rfl <;> decide

/-- What is handed over was in the buffer. -/
theorem length_handed_le {parses : CString → Bool}
    {message : Message parses} {messages : List (Message parses)}
    {socket : YaampSocket} (reads : Reads (message :: messages) socket)
    {text : CString}
    (handed : (socketNextjson parses socket).handed = some text) :
    text.length ≤ yaampSocketBufsize - 1 := by
  obtain ⟨buffer, incoming, returned, received⟩ := reads.receives
  rw [socketNextjson, returned] at handed
  dsimp only at handed
  rw [takeMessage] at handed
  split at handed
  · cases handed
  · split at handed
    · cases handed
    · rename_i found
      cases handed
      calc
        _ ≤ (onward '{' (cString buffer)).length :=
          length_firstMessage_le found
        _ ≤ (cString buffer).length :=
          (List.dropWhile_sublist _).length_le
        _ ≤ buffer.length := (List.takeWhile_sublist _).length_le
        _ ≤ yaampSocketBufsize - 1 := received.fits

/-- The values of a request that arrives as a whole. -/
theorem nextjson_of_whole {request : Request doubles}
    {messages : List (Message (accepts doubles))} {socket : YaampSocket}
    (reads : Reads (request.toMessage :: messages) socket)
    (whole : Whole socket request.toMessage) :
    ∃ next, Reads messages next ∧
      (socketNextjson (accepts doubles) socket).socket = some next ∧
        Returns (fun rounds => nextjson doubles rounds socket)
          (.values (filled none 0 request.value), some next) := by
  obtain ⟨text, next, ⟨blanks, rfl, white⟩, later, call⟩ :=
    socketNextjson_of_whole reads whole
  refine ⟨next, later, by rw [call], ?_⟩
  have denotes :=
    @Request.denotes doubles request blanks fun c member =>
      parseWhitespace (white c member)
  have short := length_handed_le reads (congrArg Call.handed call)
  have fits :
      24 * ('{' :: (request.inner ++ ['}']) ++ blanks).length < 2 ^ 31 :=
    (Nat.mul_le_mul_left 24 short).trans_lt (by decide)
  have accepted := socketNextjson_accepted call
  obtain ⟨enough, all⟩ := jsonParse_of_denotes fits denotes
  refine ⟨enough, fun rounds more => ?_⟩
  show nextjson doubles rounds socket = _
  rw [nextjson, accepted]
  dsimp only
  rw [request.text_toMessage, all rounds more, Option.map_some]

/-- Nothing is read when no request is to come. -/
theorem nextjson_of_nil {socket : YaampSocket}
    (reads : Reads ([] : List (Message (accepts doubles))) socket)
    (rounds : Nat) : nextjson doubles rounds socket = some (.null, none) := by
  have nothing : (socketNextjson (accepts doubles) socket).handed = none := by
    have all := handed_nil reads 1
    rwa [handed_one, Option.toList_eq_nil_iff] at all
  rw [nextjson, handed_eq (fun _ => true) (accepts doubles), nothing]

theorem request_filled (value : Json) :
    request (.values (filled none 0 value)) = some value := by
  rw [request]
  exact readValue_root value (Nat.le_of_eq (length_layout _ _ _ _).symm)

end Calls

/-! ## The run of the loop -/

section Run

variable {State : Type} {doubles : Doubles} (handlers : Handlers State)

/-- With enough turns, and enough rounds for the parser, the loop ends so. -/
def Ends (doubles : Doubles) (turns : Nat) (state : State)
    (socket : YaampSocket) (result : State) : Prop :=
  ∃ enough, ∀ rounds, enough ≤ rounds → ∀ more, turns < more →
    clientLoop doubles handlers rounds more state socket = some result

/-- The loop ends with the bytes of the peer. -/
theorem ends_nil {socket : YaampSocket}
    (reads : Reads ([] : List (Message (accepts doubles))) socket)
    (state : State) : Ends handlers doubles 0 state socket state := by
  refine ⟨0, fun rounds _ more positive => ?_⟩
  cases more with
  | zero => exact absurd positive (Nat.lt_irrefl 0)
  | succ turns =>
      rw [clientLoop, nextjson_of_nil reads]
      split
      · rfl
      · rfl

/-- A turn for a request that arrives as a whole. -/
theorem ends_cons {request : Request doubles} {turns : Nat} {state : State}
    {socket next : YaampSocket} {others : List Json}
    (first :
      Returns (fun rounds => nextjson doubles rounds socket)
        (.values (filled none 0 request.value), some next))
    (later : ∀ state,
      Ends handlers doubles turns state next (served handlers state others)) :
    Ends handlers doubles (turns + 1) state socket
      (served handlers state (request.value :: others)) := by
  obtain ⟨enough, all⟩ := first
  obtain ⟨enough', all'⟩ := later (handlers.serve state request.value).1
  refine ⟨max enough enough', fun rounds large more below => ?_⟩
  cases more with
  | zero => exact absurd below (Nat.not_lt_zero _)
  | succ more =>
      have read : nextjson doubles rounds socket = _ :=
        all rounds (le_of_max_le_left large)
      have rest :=
        all' rounds (le_of_max_le_right large) more
          (Nat.lt_of_succ_lt_succ below)
      rw [clientLoop, served, read]
      simp only [Option.bind_eq_bind, Option.bind_some, request_filled]
      split
      · rfl
      · split
        · exact rest
        · rfl

/-- The loop does what the turns do with the requests one after the other. -/
theorem ends_of_everyStep {requests : List (Request doubles)}
    {socket : YaampSocket}
    (reads : Reads (requests.map Request.toMessage) socket)
    (whole :
      Run.EveryStep (afterCall (accepts doubles)) ArrivesWhole (some socket)
        (requests.map Request.toMessage)) (state : State) :
    Ends handlers doubles requests.length state socket
      (served handlers state (requests.map Request.value)) := by
  induction requests generalizing socket state with
  | nil => exact ends_nil handlers reads state
  | cons request requests ih =>
      rw [List.map_cons] at reads whole
      obtain ⟨⟨waiting, same, arrives⟩, later⟩ := whole
      cases same
      obtain ⟨next, reads', call, returns⟩ := nextjson_of_whole reads arrives
      rw [afterCall, Option.bind_some, call] at later
      exact ends_cons handlers returns fun state => ih reads' later state

theorem everyStep_of_plain {requests : List (PlainRequest doubles)}
    {socket : YaampSocket}
    (reads :
      Reads ((requests.map PlainRequest.toRequest).map Request.toMessage)
        socket) :
    Run.EveryStep (afterCall (accepts doubles)) ArrivesWhole (some socket)
      ((requests.map PlainRequest.toRequest).map Request.toMessage) := by
  have flat :
      (requests.map PlainRequest.toRequest).map Request.toMessage =
        (requests.map PlainRequest.toFlat).map FlatRequest.toMessage := by
    rw [List.map_map, List.map_map]
    rfl
  rw [flat] at reads ⊢
  exact everyStep_of_flat reads

/--
The thread does with plain requests, one to a line, what the turns do with
their values one after the other, whatever pieces the bytes arrive in.
-/
theorem clientLoop_requests (requests : List (PlainRequest doubles))
    (terminated : Bool)
    (arrival :
      Arrival
        (stream
          ((requests.map PlainRequest.toRequest).map Request.toMessage)
          terminated))
    (state : State) :
    Returns
      (fun rounds =>
        clientLoop doubles handlers rounds rounds state
          (initialized arrival.chunks))
      (served handlers state
        ((requests.map PlainRequest.toRequest).map Request.value)) := by
  have reads := reads_initialized arrival
  obtain ⟨enough, all⟩ :=
    ends_of_everyStep handlers reads (everyStep_of_plain reads) state
  refine ⟨max enough ((requests.map PlainRequest.toRequest).length + 1),
    fun rounds more => ?_⟩
  exact all rounds (le_of_max_le_left more) rounds (le_of_max_le_right more)

end Run

/-! ## Two requests in two pieces -/

/-- The number one. -/
def one : Numeral where
  negative := false
  whole := ['1']
  isDigits := by simp [IsDigits]
  zero_alone := by simp
  fraction := none
  exponent := none
  whole_ne_nil := Or.inl (List.cons_ne_nil _ _)

/-- The text `id`, quoted, and what stands behind it. -/
theorem characters_id (rest : List Char) :
    Characters ('i' :: 'd' :: '"' :: rest) ['i', 'd'] rest :=
  .plain 'i' (by decide) (by decide) (by decide)
    (.plain 'd' (by decide) (by decide) (by decide) (.close rest))

/-- A request with its number only. -/
def idRequest : PlainRequest noDoubles where
  inner := ['"', 'i', 'd', '"', ':', '1']
  value := .object [(['i', 'd'], .integer 1)]
  noNul := by decide
  short := by decide
  derives rest :=
    .object
      (.member (characters_id _) (.none _) (.number one ('}' :: rest))
        (.noMembers true rest))
  noOpen := by decide
  noClose := by decide
  length_le := by decide

/-- A turn that notes the request. -/
def notesAll : Handlers (List Json) where
  bad := fun _ => false
  serve := fun noted json => (noted ++ [json], true)

/-- The first piece ends in the middle of the second request. -/
noncomputable def idArrival :
    Arrival
      (stream
        (([idRequest, idRequest].map PlainRequest.toRequest).map
          Request.toMessage)
        true) where
  chunks :=
    [['{', '"', 'i', 'd', '"', ':', '1', '}', '\n', '{', '"', 'i'],
      ['d', '"', ':', '1', '}', '\n']]
  nonempty := by decide
  whole := rfl

/-- Both requests are noted, in their order. -/
theorem clientLoop_requests_idArrival :
    Returns
      (fun rounds =>
        clientLoop noDoubles notesAll rounds rounds []
          (initialized idArrival.chunks))
      [.object [(['i', 'd'], .integer 1)],
        .object [(['i', 'd'], .integer 1)]] :=
  clientLoop_requests notesAll [idRequest, idRequest] true idArrival []

end YiimpStratum.Client
