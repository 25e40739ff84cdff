import YiimpStratum.Library.Run
import YiimpStratum.Socket.Nextjson

/-!
# Framing of messages

A message is the text of a JSON object that is shorter than the buffer of the
socket, and messages come one to a line.  The reader hands the messages to the
parser one by one exactly when for each of them no brace opens behind its first
closing one, it fits into the buffer with the line break in front of it, and no
call of `recv` ends between its first and its last closing brace.
-/

namespace YiimpStratum.Socket

open YiimpStratum
open YiimpStratum.Util
open YiimpStratum.Delimited

/-! ## Messages -/

/-- The text of an object that the parser takes, also with a line break. -/
structure Message (parses : CString → Bool) where
  inner : List Char
  noNul : '\x00' ∉ inner
  short : inner.length + 2 < yaampSocketBufsize
  accepted : parses ('{' :: (inner ++ ['}'])) = true
  acceptedLine : parses ('{' :: (inner ++ ['}']) ++ ['\n']) = true

namespace Message

variable {parses : CString → Bool} (message : Message parses)

def text : CString :=
  '{' :: (message.inner ++ ['}'])

theorem close_mem : '}' ∈ message.text :=
  List.mem_cons_of_mem _ (List.mem_append_right _ (List.mem_singleton_self _))

theorem nul_notMem : '\x00' ∉ message.text := by
  intro member
  rcases List.mem_cons.mp member with first | later
  · exact absurd first (by decide)
  · rcases List.mem_append.mp later with inside | last
    · exact message.noNul inside
    · exact absurd (List.mem_singleton.mp last) (by decide)

theorem length_text : message.text.length ≤ yaampSocketBufsize - 1 := by
  have short := message.short
  rw [text, List.length_cons, List.length_append, List.length_singleton]
  omega

end Message

/-- The messages of a client, one to a line, with a last line break or not. -/
def stream {parses : CString → Bool} (messages : List (Message parses))
    (terminated : Bool) : List Char :=
  List.intercalate ['\n'] (messages.map Message.text) ++
    if terminated then ['\n'] else []

/-- The pieces in which a text arrives. -/
structure Arrival (text : List Char) where
  chunks : List (List Char)
  nonempty : ∀ chunk ∈ chunks, chunk ≠ []
  whole : chunks.flatten = text

/-- The text is the request, trailing blanks aside. -/
def SameText (text request : CString) : Prop :=
  ∃ blanks, text = request ++ blanks ∧ ∀ c ∈ blanks, c.isWhitespace = true

/-- The calls hand exactly the messages to the parser, each once. -/
def Lossless {parses : CString → Bool} (messages : List (Message parses))
    (socket : YaampSocket) : Prop :=
  ∀ calls, List.Forall₂ SameText (handed parses calls socket)
    ((messages.map Message.text).take calls)

/-! ## When a message arrives as a whole -/

section Condition

variable {parses : CString → Bool}

/-- The length of the buffer after so many calls of `recv`. -/
def received (buffer : List Char) (chunks : List (List Char)) (calls : Nat) :
    Nat :=
  min (yaampSocketBufsize - 1) (buffer ++ (chunks.take calls).flatten).length

/-- The number of bytes in front of the next message. -/
def gapLength (socket : YaampSocket) : Nat :=
  (before '{' (socket.buffer ++ socket.incoming.flatten)).length

/-- The number of bytes through the first closing brace of the message. -/
def closeAt (socket : YaampSocket) (message : Message parses) : Nat :=
  gapLength socket + ((before '}' message.text).length + 1)

/-- The number of bytes through the end of the message. -/
def endAt (socket : YaampSocket) (message : Message parses) : Nat :=
  gapLength socket + message.text.length

/--
No brace opens behind the first closing one, the message fits into the buffer,
and no call of `recv` ends between its first closing brace and its end.
-/
structure Whole (socket : YaampSocket) (message : Message parses) : Prop where
  plain : '{' ∉ onward '}' message.text
  fits : endAt socket message ≤ yaampSocketBufsize - 1
  together : ∀ calls,
    closeAt socket message ≤ received socket.buffer socket.incoming calls →
      endAt socket message ≤ received socket.buffer socket.incoming calls

/-- The socket after the call for a message, unless it returned `NULL`. -/
def afterCall (parses : CString → Bool) (socket : Option YaampSocket)
    (_ : Message parses) : Option YaampSocket :=
  socket.bind fun socket => (socketNextjson parses socket).socket

/-- The message arrives as a whole at the socket that waits for it. -/
def ArrivesWhole (socket : Option YaampSocket) (message : Message parses) :
    Prop :=
  ∃ waiting ∈ socket, Whole waiting message

end Condition

/-! ## What is still to come -/

/-- Between two messages there is at most a line break. -/
def IsGap (gap : List Char) : Prop :=
  gap = [] ∨ gap = ['\n']

theorem IsGap.not_mem {gap : List Char} (isGap : IsGap gap) {mark : Char}
    (other : mark ≠ '\n') : mark ∉ gap := by
  rcases isGap with rfl | rfl
  · exact List.not_mem_nil
  · exact fun member => other (List.mem_singleton.mp member)

theorem IsGap.of_append {left right : List Char}
    (isGap : IsGap (left ++ right)) : IsGap left ∧ IsGap right := by
  rcases isGap with empty | one
  · obtain ⟨rfl, rfl⟩ := List.append_eq_nil_iff.mp empty
    exact ⟨Or.inl rfl, Or.inl rfl⟩
  · rcases List.append_eq_singleton_iff.mp one with ⟨rfl, rfl⟩ | ⟨rfl, rfl⟩
    · exact ⟨Or.inl rfl, Or.inr rfl⟩
    · exact ⟨Or.inr rfl, Or.inl rfl⟩

/-- The text consists of these messages and the gaps between them. -/
inductive Pending {parses : CString → Bool} :
    List (Message parses) → List Char → Prop where
  | nil (gap : List Char) (isGap : IsGap gap) : Pending [] gap
  | cons (gap : List Char) (message : Message parses)
      (messages : List (Message parses)) (rest : List Char)
      (isGap : IsGap gap) (later : Pending messages rest) :
      Pending (message :: messages) (gap ++ (message.text ++ rest))

namespace Pending

variable {parses : CString → Bool} {messages : List (Message parses)}

theorem nul_notMem {text : List Char} (pending : Pending messages text) :
    '\x00' ∉ text := by
  induction pending with
  | nil gap isGap => exact isGap.not_mem (by decide)
  | cons gap message messages rest isGap later ih =>
      rw [List.mem_append, List.mem_append, not_or, not_or]
      exact ⟨isGap.not_mem (by decide), message.nul_notMem, ih⟩

/-- A piece at the start in which no brace opens is a gap. -/
theorem of_append {left right : List Char}
    (pending : Pending messages (left ++ right)) (absent : '{' ∉ left) :
    IsGap left ∧ Pending messages right := by
  generalize total : left ++ right = text at pending
  cases pending with
  | nil gap isGap =>
      rw [← total] at isGap
      exact ⟨isGap.of_append.1, Pending.nil right isGap.of_append.2⟩
  | cons gap message messages rest isGap later =>
      rcases List.append_eq_append_iff.mp total with
        ⟨tail, rfl, rfl⟩ | ⟨start, rfl, remains⟩
      · exact ⟨isGap.of_append.1,
          Pending.cons tail message messages rest isGap.of_append.2 later⟩
      · -- the message begins with a brace, which the left part has not
        cases start with
        | nil =>
            rw [List.append_nil]
            rw [List.nil_append] at remains
            rw [← remains]
            exact ⟨isGap, Pending.cons [] message messages rest (Or.inl rfl)
              later⟩
        | cons first others =>
            rw [Message.text, List.cons_append, List.cons_append,
              List.cons.injEq] at remains
            refine absurd (List.mem_append_right gap ?_) absent
            rw [← remains.1]
            exact List.mem_cons_self

/-- Messages one to a line, after a gap. -/
theorem lines (message : Message parses) (messages : List (Message parses))
    {gap last : List Char} (isGap : IsGap gap) (ending : IsGap last) :
    Pending (message :: messages)
      (gap ++ (List.intercalate ['\n']
        ((message :: messages).map Message.text) ++ last)) := by
  induction messages generalizing message gap with
  | nil =>
      rw [List.map_singleton, List.intercalate_singleton]
      exact Pending.cons gap message [] last isGap (Pending.nil last ending)
  | cons next others ih =>
      have later := ih next (Or.inr rfl : IsGap ['\n'])
      rw [List.map_cons, List.map_cons, List.intercalate_cons_cons,
        List.append_assoc, List.append_assoc]
      exact Pending.cons gap message (next :: others) _ isGap later

theorem stream (messages : List (Message parses)) (terminated : Bool) :
    Pending messages (Socket.stream messages terminated) := by
  have ending : IsGap (if terminated = true then ['\n'] else []) := by
    cases terminated
    · exact Or.inl rfl
    · exact Or.inr rfl
  cases messages with
  | nil => exact Pending.nil _ ending
  | cons message messages => exact lines message messages (Or.inl rfl) ending

end Pending

/-! ## The loop over `recv` -/

/-- What the loop leaves, with the calls of `recv` that it took. -/
structure Received (buffer : List Char) (chunks : List (List Char))
    (buffer' : List Char) (chunks' : List (List Char)) : Prop where
  same : buffer' ++ chunks'.flatten = buffer ++ chunks.flatten
  fits : buffer'.length ≤ yaampSocketBufsize - 1
  nonempty : ∀ chunk ∈ chunks', chunk ≠ []
  filled : filled buffer' = true
  stops : ∃ calls, buffer'.length = received buffer chunks calls ∧
    ∀ earlier < calls,
      Socket.filled (buffer ++ (chunks.take earlier).flatten) = false

theorem filled_of_length {buffer : List Char}
    (full : buffer.length = yaampSocketBufsize - 1) :
    filled buffer = true := by
  rw [filled, full, decide_eq_true (le_refl _), Bool.or_true]

theorem received_atOnce {buffer : List Char} {chunks : List (List Char)}
    (fits : buffer.length ≤ yaampSocketBufsize - 1)
    (nonempty : ∀ chunk ∈ chunks, chunk ≠ []) (full : filled buffer = true) :
    Received buffer chunks buffer chunks := by
  refine ⟨rfl, fits, nonempty, full, 0, ?_, fun _ member => absurd member
    (Nat.not_lt_zero _)⟩
  rw [received, List.take_zero, List.flatten_nil, List.append_nil,
    min_eq_right fits]

/-- A call of `recv` that finds room for its piece. -/
theorem Received.cons {buffer buffer' chunk : List Char}
    {chunks chunks' : List (List Char)} (waits : Socket.filled buffer = false)
    (after : Received (buffer ++ chunk) chunks buffer' chunks') :
    Received buffer (chunk :: chunks) buffer' chunks' := by
  obtain ⟨calls, length, earlier⟩ := after.stops
  refine ⟨?_, after.fits, after.nonempty, after.filled, calls + 1, ?_, ?_⟩
  · rw [after.same, List.flatten_cons, List.append_assoc]
  · rw [length, received, received, List.take_succ_cons, List.flatten_cons,
      List.append_assoc]
  · intro step below
    cases step with
    | zero =>
        rw [List.take_zero, List.flatten_nil, List.append_nil]
        exact waits
    | succ step =>
        rw [List.take_succ_cons, List.flatten_cons, ← List.append_assoc]
        exact earlier step (Nat.lt_of_succ_lt_succ below)

/-- A call of `recv` that fills the buffer with a part of its piece. -/
theorem received_divided {buffer chunk : List Char}
    {chunks : List (List Char)} (waits : filled buffer = false)
    (fits : buffer.length ≤ yaampSocketBufsize - 1)
    (nonempty : ∀ other ∈ chunks, other ≠ [])
    (long : yaampSocketBufsize - buffer.length - 1 < chunk.length) :
    Received buffer (chunk :: chunks)
      (buffer ++ chunk.take (yaampSocketBufsize - buffer.length - 1))
      (chunk.drop (yaampSocketBufsize - buffer.length - 1) :: chunks) := by
  have full : (buffer ++ chunk.take
      (yaampSocketBufsize - buffer.length - 1)).length =
      yaampSocketBufsize - 1 := by
    rw [List.length_append, List.length_take, min_eq_left long.le]
    omega
  refine ⟨?_, full.le, ?_, filled_of_length full, 1, ?_, ?_⟩
  · rw [List.flatten_cons, List.flatten_cons, List.append_assoc,
      ← List.append_assoc (chunk.take _), List.take_append_drop]
  · refine List.forall_mem_cons.mpr ⟨?_, nonempty⟩
    rw [← List.length_pos_iff, List.length_drop]
    omega
  · rw [full, received, List.take_succ_cons, List.take_zero,
      List.flatten_singleton, List.length_append, min_eq_left]
    omega
  · intro step below
    rw [Nat.lt_one_iff.mp below, List.take_zero, List.flatten_nil,
      List.append_nil]
    exact waits

theorem receive_some {buffer buffer' : List Char}
    {chunks chunks' : List (List Char)}
    (fits : buffer.length ≤ yaampSocketBufsize - 1)
    (nonempty : ∀ chunk ∈ chunks, chunk ≠ [])
    (returned : receive buffer chunks = some (buffer', chunks')) :
    Received buffer chunks buffer' chunks' := by
  induction chunks generalizing buffer with
  | nil =>
      rw [receive] at returned
      split at returned
      · rename_i full
        cases returned
        exact received_atOnce fits nonempty full
      · cases returned
  | cons chunk chunks ih =>
      have others := (List.forall_mem_cons.mp nonempty).2
      rw [receive] at returned
      split at returned
      · rename_i full
        cases returned
        exact received_atOnce fits nonempty full
      · rename_i waits
        rw [Bool.not_eq_true] at waits
        split at returned
        · cases returned
        · dsimp only at returned
          split at returned
          · rename_i room
            refine (ih ?_ others returned).cons waits
            rw [List.length_append]
            omega
          · rename_i long
            cases returned
            exact received_divided waits fits others (not_le.mp long)

/-- The loop returns without a request only when none is complete. -/
theorem receive_none {buffer : List Char} {chunks : List (List Char)}
    (nonempty : ∀ chunk ∈ chunks, chunk ≠ [])
    (returned : receive buffer chunks = none) :
    filled (buffer ++ chunks.flatten) = false := by
  induction chunks generalizing buffer with
  | nil =>
      rw [receive] at returned
      split at returned
      · cases returned
      · rename_i waits
        rw [List.flatten_nil, List.append_nil]
        exact Bool.not_eq_true _ ▸ waits
  | cons chunk chunks ih =>
      obtain ⟨first, others⟩ := List.forall_mem_cons.mp nonempty
      rw [receive] at returned
      split at returned
      · cases returned
      · -- the piece is not empty, so the loop goes on
        dsimp only at returned
        split at returned
        · rw [List.flatten_cons, ← List.append_assoc]
          exact ih others returned
        · cases returned

/-! ## The buffer when the loop ends -/

/-- The socket waits for these messages. -/
structure Reads {parses : CString → Bool} (messages : List (Message parses))
    (socket : YaampSocket) : Prop where
  pending : Pending messages (socket.buffer ++ socket.incoming.flatten)
  fits : socket.buffer.length ≤ yaampSocketBufsize - 1
  nonempty : ∀ chunk ∈ socket.incoming, chunk ≠ []

theorem cString_of_not_mem {bytes : List Char} (absent : '\x00' ∉ bytes) :
    cString bytes = bytes :=
  before_of_not_mem absent

theorem filled_iff {buffer : List Char} (absent : '\x00' ∉ buffer) :
    filled buffer = true ↔
      '}' ∈ buffer ∨ yaampSocketBufsize - 1 ≤ buffer.length := by
  rw [filled, cString_of_not_mem absent, Bool.or_eq_true, List.contains_iff_mem,
    decide_eq_true_iff]

section Next

variable {parses : CString → Bool} {message : Message parses}
variable {messages : List (Message parses)} {socket : YaampSocket}

/-- What is still to come begins with a gap and the message. -/
theorem Reads.next (reads : Reads (message :: messages) socket) :
    ∃ gap rest, IsGap gap ∧ Pending messages rest ∧
      socket.buffer ++ socket.incoming.flatten =
        gap ++ (message.text ++ rest) ∧
      gapLength socket = gap.length := by
  obtain ⟨pending, -, -⟩ := reads
  generalize total : socket.buffer ++ socket.incoming.flatten = text at pending
  cases pending with
  | cons gap message messages rest isGap later =>
      refine ⟨gap, rest, isGap, later, rfl, ?_⟩
      rw [gapLength, total, before_append (isGap.not_mem (by decide)),
        Message.text, List.cons_append, before_cons_self, List.append_nil]

/-- A start of what is to come contains a closing brace from `closeAt` on. -/
theorem close_mem_iff {gap rest start : List Char} (isGap : IsGap gap)
    (within : start <+: gap ++ (message.text ++ rest)) :
    '}' ∈ start ↔
      gap.length + ((before '}' message.text).length + 1) ≤ start.length := by
  obtain ⟨tail, -, split⟩ := eq_before_append_cons message.close_mem
  have absent : '}' ∉ gap ++ before '}' message.text := by
    rw [List.mem_append, not_or]
    exact ⟨isGap.not_mem (by decide), not_mem_before _ _⟩
  have first : (gap ++ before '}' message.text) ++ ['}'] <+:
      gap ++ (message.text ++ rest) := by
    refine ⟨tail ++ rest, ?_⟩
    conv_rhs => rw [split]
    simp only [List.append_assoc, List.cons_append, List.nil_append]
  constructor
  · intro member
    by_contra short
    rw [not_le] at short
    have inside : start <+: gap ++ before '}' message.text := by
      refine List.prefix_of_prefix_length_le within
        ((List.prefix_append _ _).trans first) ?_
      rw [List.length_append]
      omega
    exact absent (inside.subset member)
  · intro long
    have inside := List.prefix_of_prefix_length_le first within (by
      rw [List.length_append, List.length_append, List.length_singleton]
      omega)
    exact inside.subset
      (List.mem_append_right _ (List.mem_singleton_self _))

/-- The loop ends with the message in the buffer exactly when it arrives so. -/
theorem endAt_le_iff (reads : Reads (message :: messages) socket)
    {buffer : List Char} {incoming : List (List Char)}
    (received : Received socket.buffer socket.incoming buffer incoming) :
    endAt socket message ≤ buffer.length ↔
      endAt socket message ≤ yaampSocketBufsize - 1 ∧
        ∀ calls,
          closeAt socket message ≤
              Socket.received socket.buffer socket.incoming calls →
            endAt socket message ≤
              Socket.received socket.buffer socket.incoming calls := by
  obtain ⟨gap, rest, isGap, -, total, length⟩ := reads.next
  have nul := reads.pending.nul_notMem
  have starts : ∀ start, start <+: gap ++ (message.text ++ rest) →
      ('}' ∈ start ↔ closeAt socket message ≤ start.length) := by
    intro start within
    rw [closeAt, length]
    exact close_mem_iff isGap within
  obtain ⟨calls, stopped, earlier⟩ := received.stops
  constructor
  · intro whole
    refine ⟨whole.trans received.fits, fun other closed => ?_⟩
    by_contra short
    rw [not_le] at short
    rcases Nat.lt_or_ge other calls with before | after
    · -- the loop would have ended after this call
      have waits := earlier other before
      have within : socket.buffer ++
          (socket.incoming.take other).flatten <+:
          gap ++ (message.text ++ rest) := by
        rw [← total]
        refine List.prefix_append_right_inj _ |>.mpr ?_
        exact ⟨(socket.incoming.drop other).flatten, by
          rw [← List.flatten_append, List.take_append_drop]⟩
      have brace := (starts _ within).mpr
        (closed.trans (min_le_right _ _))
      have full := (filled_iff fun member => nul
        (total ▸ within.subset member)).mpr (Or.inl brace)
      rw [waits] at full
      exact Bool.noConfusion full
    · have more : Socket.received socket.buffer socket.incoming calls ≤
          Socket.received socket.buffer socket.incoming other := by
        refine min_le_min_left _ ?_
        rw [List.length_append, List.length_append]
        refine Nat.add_le_add_left ?_ _
        obtain ⟨others, extended⟩ :=
          List.take_prefix_take_left (l := socket.incoming) after
        rw [← extended, List.flatten_append, List.length_append]
        exact Nat.le_add_right _ _
      omega
  · rintro ⟨room, together⟩
    have within : buffer <+: gap ++ (message.text ++ rest) :=
      ⟨incoming.flatten, received.same.trans total⟩
    have full := (filled_iff fun member => nul
      (total ▸ within.subset member)).mp received.filled
    rcases full with brace | long
    · rw [stopped]
      refine together calls ?_
      rw [← stopped]
      exact (starts buffer within).mp brace
    · exact room.trans long

/-- There is a buffer with a request when a message is to come. -/
theorem Reads.receives (reads : Reads (message :: messages) socket) :
    ∃ buffer incoming,
      receive socket.buffer socket.incoming = some (buffer, incoming) ∧
        Received socket.buffer socket.incoming buffer incoming := by
  cases returned : receive socket.buffer socket.incoming with
  | none =>
      have waits := receive_none reads.nonempty returned
      obtain ⟨gap, rest, -, -, total, -⟩ := reads.next
      have brace : '}' ∈ socket.buffer ++ socket.incoming.flatten := by
        rw [total]
        exact List.mem_append_right _
          (List.mem_append_left _ message.close_mem)
      have full := (filled_iff reads.pending.nul_notMem).mpr (Or.inl brace)
      rw [waits] at full
      exact Bool.noConfusion full
  | some result =>
      exact ⟨result.1, result.2, rfl,
        receive_some reads.fits reads.nonempty returned⟩

end Next

/-! ## The end of a message -/

section Message

variable {parses : CString → Bool} {message : Message parses}

theorem sameText_of_gap {gap : List Char} (isGap : IsGap gap)
    (request : CString) : SameText (request ++ gap) request := by
  refine ⟨gap, rfl, ?_⟩
  rcases isGap with rfl | rfl
  · exact fun c member => absurd member List.not_mem_nil
  · exact fun c member => List.mem_singleton.mp member ▸ rfl

theorem Message.parses_append (message : Message parses) {gap : List Char}
    (isGap : IsGap gap) : parses (message.text ++ gap) = true := by
  rcases isGap with rfl | rfl
  · rw [List.append_nil]
    exact message.accepted
  · exact message.acceptedLine

/-- The message that is found at the start of a text, with what follows it. -/
theorem firstMessage_of_plain (plain : '{' ∉ onward '}' message.text)
    {rest : List Char} (gap : IsGap (before '{' rest)) :
    ∃ blanks, IsGap blanks ∧
      firstMessage (message.text ++ rest) = some (message.text ++ blanks) ∧
      onward '{' (rest.drop blanks.length) = onward '{' rest := by
  obtain ⟨tail, found, -⟩ := eq_before_append_cons message.close_mem
  have closed : onward '}' message.text ++ rest ≠ [] := by
    rw [found]
    exact List.cons_ne_nil _ _
  rw [firstMessage, onward_append_of_mem message.close_mem, if_neg closed]
  by_cases opens : '{' ∈ rest
  · refine ⟨before '{' rest, gap, ?_, ?_⟩
    · rw [if_pos (List.mem_append_right _ opens),
        before_append_of_mem message.close_mem, before_append plain,
        ← List.append_assoc, before_append_onward]
    · have behind : rest.drop (before '{' rest).length = onward '{' rest := by
        have cut := @List.drop_left _ (before '{' rest) (onward '{' rest)
        rw [before_append_onward] at cut
        exact cut
      obtain ⟨others, next, -⟩ := eq_before_append_cons opens
      rw [behind, next, onward_cons_self]
  · refine ⟨[], Or.inl rfl, ?_, rfl⟩
    have absent : '}' ∉ rest := by
      rw [before_of_not_mem opens] at gap
      exact gap.not_mem (by decide)
    have neither : '{' ∉ onward '}' message.text ++ rest := by
      rw [List.mem_append, not_or]
      exact ⟨plain, opens⟩
    have last : message.text ++ rest =
        ('{' :: message.inner) ++ '}' :: rest := by
      rw [Message.text, List.cons_append, List.append_assoc]
      rfl
    rw [if_neg neither, last, throughLast_append absent, List.append_nil]
    rfl

/-- What the call leaves when the message is in the buffer as a whole. -/
theorem takeMessage_of_plain (plain : '{' ∉ onward '}' message.text)
    {lead rest : List Char} (leads : IsGap lead)
    (gap : IsGap (before '{' rest))
    (nul : '\x00' ∉ lead ++ (message.text ++ rest))
    (incoming : List (List Char)) :
    ∃ blanks, IsGap blanks ∧
      takeMessage parses (lead ++ (message.text ++ rest)) incoming =
        { handed := some (message.text ++ blanks)
          socket :=
            some { buffer := onward '{' rest, incoming := incoming } } := by
  obtain ⟨blanks, isGap, found, follows⟩ := firstMessage_of_plain plain gap
  have b : onward '{' (lead ++ (message.text ++ rest)) =
      message.text ++ rest := by
    rw [onward_append (leads.not_mem (by decide)), Message.text,
      List.cons_append, onward_cons_self]
  have nonempty : message.text ++ rest ≠ [] := List.cons_ne_nil _ _
  refine ⟨blanks, isGap, ?_⟩
  rw [takeMessage]
  rw [cString_of_not_mem nul, b, if_neg nonempty, found]
  dsimp only
  rw [if_pos (message.parses_append isGap), kept]
  have dropped : (message.text ++ rest).drop
      (message.text ++ blanks).length = rest.drop blanks.length := by
    rw [List.length_append, ← List.drop_drop, List.drop_left]
  have behind : lead ++ (message.text ++ rest) =
      lead ++ (message.text ++ before '{' rest) ++ onward '{' rest := by
    rw [List.append_assoc, List.append_assoc, before_append_onward]
  rw [dropped, follows, cString_of_not_mem nul]
  split
  · rename_i absent
    rw [absent]
  · generalize onward '{' rest = left at behind
    generalize lead ++ (message.text ++ before '{' rest) = front at behind
    rw [behind, List.length_append, Nat.add_sub_cancel, List.drop_left]

theorem length_firstMessage_le {b text : CString}
    (found : firstMessage b = some text) : text.length ≤ b.length := by
  rw [firstMessage] at found
  split at found
  · cases found
  · split at found
    · cases found
      conv_rhs => rw [← before_append_onward '}' b]
      rw [List.length_append, List.length_append]
      exact Nat.add_le_add_left (List.takeWhile_sublist _).length_le _
    · cases found
      exact length_throughLast_le '}' b

/-- A message is cut at a brace that opens behind its first closing one. -/
theorem length_firstMessage_lt (opens : '{' ∈ onward '}' message.text)
    {rest text : CString}
    (found : firstMessage (message.text ++ rest) = some text) :
    text.length < message.text.length := by
  obtain ⟨tail, closes, -⟩ := eq_before_append_cons message.close_mem
  obtain ⟨others, -, cut⟩ := eq_before_append_cons opens
  have closed : onward '}' message.text ++ rest ≠ [] := by
    rw [closes]
    exact List.cons_ne_nil _ _
  rw [firstMessage, onward_append_of_mem message.close_mem, if_neg closed,
    if_pos (List.mem_append_left _ opens),
    before_append_of_mem message.close_mem, before_append_of_mem opens]
    at found
  cases found
  have whole := congrArg List.length (before_append_onward '}' message.text)
  have rests := congrArg List.length cut
  rw [List.length_append] at whole
  rw [List.length_append, List.length_cons] at rests
  rw [List.length_append]
  omega

/-- A start of what is to come in which a brace opens has the gap in it. -/
theorem opened_start {lead rest start : List Char} (leads : IsGap lead)
    (within : start <+: lead ++ (message.text ++ rest))
    (opened : ¬ onward '{' start = []) :
    ∃ piece, start = lead ++ piece ∧ piece <+: message.text ++ rest := by
  rcases List.prefix_or_prefix_of_prefix within
    (List.prefix_append lead _) with short | ⟨piece, rfl⟩
  · refine absurd (onward_of_not_mem fun member => ?_) opened
    exact leads.not_mem (by decide) (short.subset member)
  · exact ⟨piece, rfl, (List.prefix_append_right_inj lead).mp within⟩

/-- A piece of a message from its start on begins with its brace. -/
theorem onward_start {rest piece : List Char}
    (inside : piece <+: message.text ++ rest)
    (opened : ¬ onward '{' piece = []) : onward '{' piece = piece := by
  cases piece with
  | nil => exact absurd rfl opened
  | cons first others =>
      obtain ⟨tail, whole⟩ := inside
      rw [Message.text, List.cons_append, List.cons_append,
        List.cons.injEq] at whole
      rw [whole.1, onward_cons_self]

/-- A start of what is to come that holds no whole message. -/
theorem length_handed_lt {lead rest start : List Char} (leads : IsGap lead)
    (within : start <+: lead ++ (message.text ++ rest))
    (nul : '\x00' ∉ lead ++ (message.text ++ rest))
    (torn : start.length < lead.length + message.text.length ∨
      '{' ∈ onward '}' message.text)
    {incoming : List (List Char)} {text : CString}
    (handed : (takeMessage parses start incoming).handed = some text) :
    text.length < message.text.length := by
  have startNul : '\x00' ∉ start := fun member =>
    nul (within.subset member)
  rw [takeMessage, cString_of_not_mem startNul] at handed
  split at handed
  · cases handed
  · rename_i opened
    split at handed
    · cases handed
    · rename_i found
      cases handed
      obtain ⟨piece, rfl, inside⟩ := opened_start leads within opened
      have b : onward '{' (lead ++ piece) = piece := by
        rw [onward_append (leads.not_mem (by decide))] at opened ⊢
        exact onward_start inside opened
      rw [b] at found
      by_cases short : piece.length < message.text.length
      · exact (length_firstMessage_le found).trans_lt short
      · have opens : '{' ∈ onward '}' message.text := by
          refine torn.resolve_left fun less => short ?_
          rw [List.length_append] at less
          omega
        obtain ⟨tail, rfl⟩ := List.prefix_of_prefix_length_le
          (List.prefix_append _ _) inside (not_lt.mp short)
        exact length_firstMessage_lt opens found

end Message

/-! ## Calls -/

section Calls

variable {parses : CString → Bool} {message : Message parses}
variable {messages : List (Message parses)} {socket : YaampSocket}

theorem not_sameText_of_length_lt {text request : CString}
    (short : text.length < request.length) : ¬ SameText text request := by
  rintro ⟨blanks, rfl, -⟩
  rw [List.length_append] at short
  omega

/-- A call hands over a message that arrives as a whole, and goes on. -/
theorem socketNextjson_of_whole (reads : Reads (message :: messages) socket)
    (whole : Whole socket message) :
    ∃ text next, SameText text message.text ∧ Reads messages next ∧
      socketNextjson parses socket =
        { handed := some text, socket := some next } := by
  obtain ⟨lead, rest, leads, later, total, length⟩ := reads.next
  obtain ⟨buffer, incoming, returned, received⟩ := reads.receives
  have enough := (endAt_le_iff reads received).mpr
    ⟨whole.fits, whole.together⟩
  have inside : lead ++ message.text <+: buffer := by
    refine List.prefix_of_prefix_length_le ?_
      ⟨incoming.flatten, received.same.trans total⟩ ?_
    · rw [← List.append_assoc]
      exact List.prefix_append _ _
    · rw [endAt, length] at enough
      rw [List.length_append]
      exact enough
  obtain ⟨tail, rfl⟩ := inside
  have rests : rest = tail ++ incoming.flatten := by
    have both := total.symm.trans received.same.symm
    rw [List.append_assoc, List.append_assoc, List.append_cancel_left_eq,
      List.append_cancel_left_eq] at both
    exact both
  have split := later
  rw [rests, ← before_append_onward '{' tail, List.append_assoc] at split
  obtain ⟨gap, pending⟩ := split.of_append (not_mem_before _ _)
  have nul : '\x00' ∉ lead ++ (message.text ++ tail) := by
    intro member
    rw [← List.append_assoc] at member
    refine reads.pending.nul_notMem ?_
    rw [← received.same]
    exact List.mem_append_left _ member
  obtain ⟨blanks, isGap, taken⟩ :=
    takeMessage_of_plain whole.plain leads gap nul incoming
  refine ⟨message.text ++ blanks,
    { buffer := onward '{' tail, incoming := incoming },
    sameText_of_gap isGap _, ⟨pending, ?_, received.nonempty⟩, ?_⟩
  · have fits := received.fits
    rw [List.length_append, List.length_append] at fits
    have shorter : (onward '{' tail).length ≤ tail.length :=
      (List.dropWhile_sublist _).length_le
    exact shorter.trans ((Nat.le_add_left _ _).trans fits)
  · rw [socketNextjson, returned]
    dsimp only
    rw [List.append_assoc, taken]

/-- A call does not hand over a message that does not arrive as a whole. -/
theorem not_sameText_of_not_whole (reads : Reads (message :: messages) socket)
    (torn : ¬ Whole socket message) {text : CString}
    (handed : (socketNextjson parses socket).handed = some text) :
    ¬ SameText text message.text := by
  obtain ⟨lead, rest, leads, later, total, length⟩ := reads.next
  obtain ⟨buffer, incoming, returned, received⟩ := reads.receives
  rw [socketNextjson, returned] at handed
  dsimp only at handed
  refine not_sameText_of_length_lt (length_handed_lt leads
    ⟨incoming.flatten, received.same.trans total⟩
    (total ▸ reads.pending.nul_notMem) ?_ handed)
  by_contra neither
  rw [not_or, not_lt] at neither
  obtain ⟨enough, plain⟩ := neither
  rw [← length] at enough
  obtain ⟨fits, together⟩ := (endAt_le_iff reads received).mp enough
  exact torn ⟨plain, fits, together⟩

/-- Nothing is handed over when no message is to come. -/
theorem handed_nil (reads : Reads ([] : List (Message parses)) socket)
    (calls : Nat) : handed parses calls socket = [] := by
  obtain ⟨pending, fits, nonempty⟩ := reads
  have nul := pending.nul_notMem
  have isGap : IsGap (socket.buffer ++ socket.incoming.flatten) := by
    cases pending with
    | nil gap isGap => exact isGap
  have small : (socket.buffer ++ socket.incoming.flatten).length ≤ 1 := by
    rcases isGap with empty | one
    · rw [empty]
      exact Nat.zero_le 1
    · rw [one]
      exact le_refl 1
  have waits : receive socket.buffer socket.incoming = none := by
    cases returned : receive socket.buffer socket.incoming with
    | none => rfl
    | some result =>
        have received := receive_some fits nonempty returned
        have within : result.1 <+: socket.buffer ++ socket.incoming.flatten :=
          ⟨result.2.flatten, received.same⟩
        have full := (filled_iff fun member =>
          nul (within.subset member)).mp received.filled
        rcases full with brace | long
        · exact absurd (within.subset brace) (isGap.not_mem (by decide))
        · exact absurd (long.trans (within.length_le.trans small)) (by decide)
  cases calls with
  | zero => rfl
  | succ calls =>
      rw [handed, socketNextjson, waits]
      rfl

end Calls

/-! ## Runs -/

section Runs

variable {parses : CString → Bool}

theorem handed_one (parses : CString → Bool) (socket : YaampSocket) :
    handed parses 1 socket = (socketNextjson parses socket).handed.toList := by
  rw [handed]
  split
  · exact List.append_nil _
  · exact List.append_nil _

/-- Messages are read without loss exactly when each arrives as a whole. -/
theorem lossless_iff_everyStep {messages : List (Message parses)}
    {socket : YaampSocket} (reads : Reads messages socket) :
    Lossless messages socket ↔
      Run.EveryStep (afterCall parses) ArrivesWhole (some socket)
        messages := by
  induction messages generalizing socket with
  | nil =>
      refine iff_of_true (fun calls => ?_) trivial
      rw [handed_nil reads, List.map_nil, List.take_nil]
      exact List.Forall₂.nil
  | cons message messages ih =>
      by_cases whole : Whole socket message
      · obtain ⟨text, next, same, later, call⟩ :=
          socketNextjson_of_whole reads whole
        have first : ArrivesWhole (some socket) message :=
          ⟨socket, rfl, whole⟩
        have after : afterCall parses (some socket) message = some next := by
          rw [afterCall, Option.bind_some, call]
        have rest : Lossless (message :: messages) socket ↔
            Lossless messages next := by
          constructor
          · intro lossless calls
            have more := lossless (calls + 1)
            rw [handed, call, List.map_cons, List.take_succ_cons] at more
            exact (List.forall₂_cons.mp more).2
          · intro lossless calls
            cases calls with
            | zero => exact List.Forall₂.nil
            | succ calls =>
                rw [handed, call, List.map_cons, List.take_succ_cons]
                exact List.Forall₂.cons same (lossless calls)
        rw [rest, ih later, Run.EveryStep, and_iff_right first, after]
      · refine iff_of_false (fun lossless => ?_) fun every => ?_
        · have one := lossless 1
          rw [handed_one, List.map_cons, List.take_succ_cons,
            List.take_zero] at one
          cases given : (socketNextjson parses socket).handed with
          | none =>
              rw [given] at one
              cases one
          | some text =>
              rw [given] at one
              exact not_sameText_of_not_whole reads whole given
                (List.forall₂_cons.mp one).1
        · obtain ⟨other, same, otherWhole⟩ := every.1
          cases same
          exact whole otherWhole

theorem reads_initialized {messages : List (Message parses)}
    {terminated : Bool} (arrival : Arrival (stream messages terminated)) :
    Reads messages (initialized arrival.chunks) where
  pending := by
    rw [initialized, List.nil_append, arrival.whole]
    exact Pending.stream messages terminated
  fits := Nat.zero_le _
  nonempty := arrival.nonempty

/-- A message with one opening and one closing brace, and room for a break. -/
structure FlatRequest (parses : CString → Bool) extends Message parses where
  oneOpen : toMessage.text.count '{' = 1
  oneClose : toMessage.text.count '}' = 1
  length_le : toMessage.text.length ≤ 4094

theorem FlatRequest.inner_flat (request : FlatRequest parses) :
    '{' ∉ request.inner ∧ '}' ∉ request.inner := by
  have opens := request.oneOpen
  have closes := request.oneClose
  rw [Message.text, List.count_cons, List.count_append,
    List.count_singleton] at opens closes
  rw [← List.count_eq_zero, ← List.count_eq_zero]
  constructor
  · simpa using opens
  · simpa using closes

/-- A flat request arrives as a whole with its closing brace. -/
theorem FlatRequest.whole (request : FlatRequest parses)
    {messages : List (Message parses)} {socket : YaampSocket}
    (reads : Reads (request.toMessage :: messages) socket) :
    Whole socket request.toMessage := by
  obtain ⟨opens, closes⟩ := request.inner_flat
  obtain ⟨lead, rest, leads, -, -, length⟩ := reads.next
  have absent : '}' ∉ '{' :: request.inner := by
    rw [List.mem_cons, not_or]
    exact ⟨by decide, closes⟩
  have split : request.text = ('{' :: request.inner) ++ ['}'] := rfl
  have front : before '}' request.text = '{' :: request.inner := by
    rw [split, before_append absent, before_cons_self, List.append_nil]
  refine ⟨?_, ?_, fun calls closed => ?_⟩
  · rw [split, onward_append absent, onward_cons_self]
    decide
  · have short := request.length_le
    rw [endAt, length]
    rcases leads with rfl | rfl
    · exact (Nat.zero_add _).le.trans (short.trans (by decide))
    · exact Nat.add_le_add_left short 1
  · rw [closeAt, front] at closed
    rw [endAt, split, List.length_append]
    exact closed

theorem everyStep_of_flat {requests : List (FlatRequest parses)}
    {socket : YaampSocket}
    (reads : Reads (requests.map FlatRequest.toMessage) socket) :
    Run.EveryStep (afterCall parses) ArrivesWhole (some socket)
      (requests.map FlatRequest.toMessage) := by
  induction requests generalizing socket with
  | nil => exact trivial
  | cons request requests ih =>
      rw [List.map_cons] at reads ⊢
      have whole := request.whole reads
      obtain ⟨text, next, -, later, call⟩ :=
        socketNextjson_of_whole reads whole
      refine ⟨⟨socket, rfl, whole⟩, ?_⟩
      rw [afterCall, Option.bind_some, call]
      exact ih later

/--
Flat requests, one to a line, are handed to the parser in their order and each
once, whatever pieces they arrive in.
-/
theorem flatRequests_lossless (requests : List (FlatRequest parses))
    (terminated : Bool)
    (arrival :
      Arrival (stream (requests.map FlatRequest.toMessage) terminated)) :
    Lossless (requests.map FlatRequest.toMessage)
      (initialized arrival.chunks) := by
  have reads := reads_initialized arrival
  exact (lossless_iff_everyStep reads).mpr (everyStep_of_flat reads)

/--
Messages with nested objects are handed to the parser exactly when each of them
arrives as a whole at the call for it.
-/
theorem messages_lossless_iff (messages : List (Message parses))
    (terminated : Bool) (arrival : Arrival (stream messages terminated)) :
    Lossless messages (initialized arrival.chunks) ↔
      Run.EveryStep (afterCall parses) ArrivesWhole
        (some (initialized arrival.chunks)) messages :=
  lossless_iff_everyStep (reads_initialized arrival)

end Runs

/-! ## A reply in two pieces -/

/-- A parser that looks at the braces only. -/
def bracesMatch (text : CString) : Bool :=
  text.head? == some '{' && text.count '{' == text.count '}'

/-- A reply to `client.get_stats`, with an object as its result. -/
def statsReply : Message bracesMatch where
  inner := ['"', 'r', 'e', 's', 'u', 'l', 't', '"', ':', '{', '}']
  noNul := by decide
  short := by decide
  accepted := by decide
  acceptedLine := by decide

/-- A call of `recv` ends between the two closing braces. -/
def tornArrival : Arrival (stream [statsReply] false) where
  chunks := ['{' :: statsReply.inner, ['}']]
  nonempty := by decide
  whole := by decide

/-- The parser gets the reply without its last brace. -/
theorem not_lossless_tornArrival :
    ¬ Lossless [statsReply] (initialized tornArrival.chunks) := by
  have cut : handed bracesMatch 1 (initialized tornArrival.chunks) =
      ['{' :: statsReply.inner] := by
    decide +kernel
  intro lossless
  have one := lossless 1
  rw [cut] at one
  exact not_sameText_of_length_lt (by decide) (List.forall₂_cons.mp one).1

/-! ## Two requests in three pieces -/

/-- A request without parameters. -/
def pingRequest : FlatRequest bracesMatch where
  inner := ['"', 'm', 'e', 't', 'h', 'o', 'd', '"', ':', '"', 'p', '"']
  noNul := by decide
  short := by decide
  accepted := by decide
  acceptedLine := by decide
  oneOpen := by decide
  oneClose := by decide
  length_le := by decide

/-- The pieces end in the middle of the first request and of the second. -/
def piecewiseArrival :
    Arrival (stream ([pingRequest, pingRequest].map FlatRequest.toMessage)
      true) where
  chunks :=
    [['{', '"', 'm', 'e', 't'],
      ['h', 'o', 'd', '"', ':', '"', 'p', '"', '}', '\n', '{', '"', 'm'],
      ['e', 't', 'h', 'o', 'd', '"', ':', '"', 'p', '"', '}', '\n']]
  nonempty := by decide
  whole := by decide

theorem flatRequests_lossless_piecewise :
    Lossless ([pingRequest, pingRequest].map FlatRequest.toMessage)
      (initialized piecewiseArrival.chunks) :=
  flatRequests_lossless [pingRequest, pingRequest] true piecewiseArrival

end YiimpStratum.Socket
