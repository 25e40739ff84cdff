import Mathlib.Data.List.TakeWhile
import YiimpStratum.Library.Delimited
import YiimpStratum.Rpc.Call
import YiimpStratum.Util.Strings

/-!
# Responses in pieces

A response with its length in the header comes to the buffer of the call and
to the memory for its body, wherever the calls of `recv` divide it.
-/

namespace YiimpStratum.Rpc

open YiimpStratum
open YiimpStratum.Util

/-! ## Responses -/

def lengthName : CString :=
  "Content-Length:".toList

def encodingName : CString :=
  "Transfer-Encoding:".toList

/-- A response whose header declares a length for the body. -/
structure Response where
  /-- the status line and the headers in front of the length -/
  front : CString
  declared : Nat
  /-- the headers behind the length -/
  others : CString
  body : CString

namespace Response

variable (response : Response)

def digits : CString :=
  Nat.toDigits 10 response.declared

def head : CString :=
  response.front ++
    (lengthName ++ (' ' :: (response.digits ++ response.others)))

def text : CString :=
  response.head ++ (blankLine ++ response.body)

/-- The room for the body in the buffer of the call. -/
def room : Nat :=
  yaampSmallbufsize - 1 - (response.head.length + 4)

/-- What the call relies on, the length of the body aside. -/
structure WellFormed : Prop where
  noNul : terminator ∉ response.text
  /-- the length is declared once, and the head ends with its blank line -/
  firstLength : ¬ lengthName <:+: response.front ++ lengthName.dropLast
  firstBlank : ¬ blankLine <:+: response.head ++ blankLine.dropLast
  ends : response.others = [] ∨ ∃ rest, response.others = lineBreak ++ rest
  noEncoding : ¬ encodingName <:+: response.text
  fits : response.head.length + 4 < yaampSmallbufsize
  positive : 0 < response.declared
  small : response.declared + 1 < 2 ^ 31

end Response

/-! ## Calls of `recv` -/

/-- There is something to receive. -/
theorem recv_ready {incoming : List (List Char)} {room : Nat}
    (someRoom : 0 < room) (nonempty : ∀ chunk ∈ incoming, chunk ≠ [])
    (more : incoming ≠ []) :
    ∃ bytes rest, recv room incoming = (some bytes, rest) ∧
      ∀ chunk ∈ rest, chunk ≠ [] := by
  cases incoming with
  | nil => exact absurd rfl more
  | cons chunk chunks =>
      obtain ⟨first, others⟩ := List.forall_mem_cons.mp nonempty
      rw [recv, if_neg (Nat.ne_of_gt someRoom), if_neg first]
      split
      · exact ⟨_, _, rfl, others⟩
      · rename_i long
        refine ⟨_, _, rfl, List.forall_mem_cons.mpr ⟨?_, others⟩⟩
        rw [← List.length_pos_iff, List.length_drop]
        omega

theorem eq_nil_of_flatten {incoming : List (List Char)}
    (nonempty : ∀ chunk ∈ incoming, chunk ≠ [])
    (ended : incoming.flatten = []) : incoming = [] := by
  cases incoming with
  | nil => rfl
  | cons chunk chunks =>
      rw [List.flatten_cons, List.append_eq_nil_iff] at ended
      exact absurd ended.1 (nonempty chunk List.mem_cons_self)

theorem receiveHead_of_recv {buffer bytes : List Char}
    {incoming rest : List (List Char)}
    (received :
      recv (yaampSmallbufsize - buffer.length - 1) incoming =
        (some bytes, rest)) :
    receiveHead buffer incoming =
      if (strstr blankLine (textOf (buffer ++ bytes))).isSome then
        (some (buffer ++ bytes), rest)
      else receiveHead (buffer ++ bytes) rest := by
  rw [receiveHead]
  split
  · rename_i closed
    rw [closed] at received
    cases received
  · rename_i again
    rw [again] at received
    cases received
    rfl

theorem receiveBody_of_recv {datalen : Nat} {databuf bytes : List Char}
    {incoming rest : List (List Char)} (short : databuf.length < datalen)
    (received :
      recv (datalen - databuf.length) incoming = (some bytes, rest)) :
    receiveBody datalen databuf incoming =
      receiveBody datalen (databuf ++ bytes) rest := by
  rw [receiveBody, if_pos short]
  split
  · rename_i closed
    rw [closed] at received
    cases received
  · rename_i again
    rw [again] at received
    cases received
    rfl

/-- The rest of the body is received, and nothing behind it. -/
theorem receiveBody_whole {databuf body : List Char}
    {incoming : List (List Char)}
    (nonempty : ∀ chunk ∈ incoming, chunk ≠ [])
    (whole : databuf ++ incoming.flatten = body) :
    receiveBody body.length databuf incoming = (some body, []) := by
  induction left : pending incoming using Nat.strongRecOn
    generalizing databuf incoming with
  | ind left ih =>
      by_cases ended : incoming = []
      · subst ended
        rw [List.flatten_nil, List.append_nil] at whole
        rw [receiveBody, whole, if_neg (Nat.lt_irrefl _)]
      · have lengths := congrArg List.length whole
        have arriving : incoming.flatten ≠ [] :=
          mt (eq_nil_of_flatten nonempty) ended
        have pos := List.length_pos_iff.mpr arriving
        rw [List.length_append] at lengths
        have short : databuf.length < body.length := by omega
        obtain ⟨bytes, rest, received, others⟩ :=
          recv_ready (show 0 < body.length - databuf.length by omega) nonempty
            ended
        obtain ⟨-, -, same⟩ := recv_some received
        rw [receiveBody_of_recv short received]
        refine ih (pending rest) (left ▸ pending_recv received) others ?_ rfl
        rw [List.append_assoc, same, whole]

/-! ## The head of a response -/

theorem textOf_of_notMem {text : List Char} (noNul : terminator ∉ text) :
    textOf text = text :=
  Delimited.before_of_not_mem noNul

/-! ## The length -/

theorem isDigit_of_mem_digits {response : Response} {c : Char}
    (member : c ∈ response.digits) : c.isDigit = true :=
  Nat.isDigit_of_mem_toDigits (by decide) (by decide) member

theorem atoi_of_digits {c : Char} {digits : CString}
    (first : c.isDigit = true) :
    atoi (c :: digits) = decimal (c :: digits) := by
  have noBlank : c.isWhitespace = false := by
    by_contra blank
    simp only [Char.isWhitespace, Bool.not_eq_false, Bool.or_eq_true,
      decide_eq_true_eq] at blank
    rcases blank with ((rfl | rfl) | rfl) | rfl <;> simp at first
  rw [atoi, List.dropWhile_cons_of_neg (by simp [noBlank])]
  split
  · rename_i minus
    rw [(List.cons.inj minus).1] at first
    simp at first
  · rename_i plus
    rw [(List.cons.inj plus).1] at first
    simp at first
  · rfl

theorem decimal_toDigits (number : Nat) :
    decimal (Nat.toDigits 10 number) = number := by
  have all : (Nat.toDigits 10 number).takeWhile isdigit =
      Nat.toDigits 10 number := by
    rw [List.takeWhile_eq_self_iff]
    intro c member
    have isDigit : c.isDigit = true :=
      Nat.isDigit_of_mem_toDigits (by decide) (by decide) member
    simpa [isdigit, Char.isDigit, Char.le_def] using isDigit
  rw [decimal, all, ← Nat.ofDigitChars_eq_foldl, Nat.ofDigitChars_ten_toDigits]

theorem atoiInt_toDigits {number : Nat} (small : number < 2 ^ 31) :
    atoiInt (Nat.toDigits 10 number) = number := by
  have value : atoi (Nat.toDigits 10 number) = number := by
    cases shape : Nat.toDigits 10 number with
    | nil => exact absurd shape Nat.toDigits_ne_nil
    | cons c digits =>
        have first : c.isDigit = true :=
          Nat.isDigit_of_mem_toDigits (by decide) (by decide)
            (shape ▸ List.mem_cons_self)
        rw [atoi_of_digits first, ← shape, decimal_toDigits]
  rw [atoiInt, value, min_eq_right (by omega), max_eq_right (by omega), toInt,
    BitVec.toInt_ofInt]
  exact Int.bmod_eq_of_le (by omega) (by omega)

section Head

variable {response : Response} (wellFormed : response.WellFormed)
include wellFormed

/-- The call leaves the loop with the head and some bytes of the body. -/
theorem receiveHead_text {buffer : List Char} {incoming : List (List Char)}
    (nonempty : ∀ chunk ∈ incoming, chunk ≠ [])
    (whole : buffer ++ incoming.flatten = response.text)
    (short : buffer.length < response.head.length + 4) :
    ∃ first rest,
      receiveHead buffer incoming =
          (some (response.head ++ (blankLine ++ first)), rest) ∧
        first ++ rest.flatten = response.body ∧
          (∀ chunk ∈ rest, chunk ≠ []) ∧ first.length ≤ response.room := by
  induction left : pending incoming using Nat.strongRecOn
    generalizing buffer incoming with
  | ind left ih =>
      have fits := wellFormed.fits
      have lengths := congrArg List.length whole
      have blank : blankLine.length = 4 := rfl
      simp only [Response.text, List.length_append, blank] at lengths
      have more : incoming ≠ [] := by
        rintro rfl
        simp at lengths
        omega
      obtain ⟨bytes, rest, received, others⟩ :=
        recv_ready (show 0 < yaampSmallbufsize - buffer.length - 1 by omega)
          nonempty more
      obtain ⟨-, bounded, same⟩ := recv_some received
      have whole' : (buffer ++ bytes) ++ rest.flatten = response.text := by
        rw [List.append_assoc, same, whole]
      have noNul : terminator ∉ buffer ++ bytes := by
        intro member
        apply wellFormed.noNul
        rw [← whole']
        exact List.mem_append_left _ member
      have lengths' := @List.length_append _ buffer bytes
      rw [receiveHead_of_recv received, textOf_of_notMem noNul]
      generalize buffer ++ bytes = buffer' at *
      by_cases before : buffer'.length < response.head.length + 4
      · have inside :
            buffer' <+: response.head ++ blankLine.dropLast := by
          refine List.prefix_of_prefix_length_le ⟨_, whole'⟩ ?_ ?_
          · exact (List.prefix_append_right_inj _).mpr
              (blankLine.dropLast_prefix.trans (List.prefix_append _ _))
          · rw [List.length_append, List.length_dropLast, blank]
            omega
        have unended : strstr blankLine buffer' = none := by
          rw [strstr_eq_none_iff]
          exact fun occurs =>
            wellFormed.firstBlank (occurs.trans inside.isInfix)
        rw [unended]
        exact ih _ (left ▸ pending_recv received) others whole' before rfl
      · obtain ⟨first, rfl⟩ :
            ∃ first, buffer' = response.head ++ (blankLine ++ first) := by
          have start : response.head ++ blankLine <+: buffer' := by
            refine List.prefix_of_prefix_length_le ?_ ⟨_, whole'⟩ ?_
            · rw [Response.text, ← List.append_assoc]
              exact List.prefix_append _ _
            · rw [List.length_append, blank]
              omega
          obtain ⟨first, same⟩ := start
          exact ⟨first, by rw [← same, List.append_assoc]⟩
        have found :
            (strstr blankLine
              (response.head ++ (blankLine ++ first))).isSome = true := by
          rw [strstr_append _ _ wellFormed.firstBlank (by decide)]
          rfl
        rw [found]
        refine ⟨first, rest, rfl, ?_, others, ?_⟩
        · simpa [Response.text] using whole'
        · simp only [List.length_append, blank] at lengths'
          rw [Response.room]
          omega

/-- The length is read out of the head, whatever has come of the body. -/
theorem headerValue_lengthName (first : CString) :
    headerValue (response.head ++ (blankLine ++ first)) lengthName =
      response.digits := by
  obtain ⟨behind, continues⟩ :
      ∃ behind, response.others ++ (blankLine ++ first) =
        lineBreak ++ behind := by
    rcases wellFormed.ends with empty | ⟨rest, others⟩
    · exact ⟨lineBreak ++ first, by rw [empty]; rfl⟩
    · exact ⟨rest ++ (blankLine ++ first), by rw [others, List.append_assoc]⟩
  have shape :
      response.head ++ (blankLine ++ first) =
        response.front ++
          (lengthName ++ (' ' :: (response.digits ++
            (lineBreak ++ behind)))) := by
    rw [← continues]
    simp [Response.head]
  have digits_pos : response.digits ≠ [] := Nat.toDigits_ne_nil
  have short : response.digits.length ≤ 1023 := by
    have small := wellFormed.small
    exact Nat.le_trans
      ((Nat.length_toDigits_le_iff (by decide) (by decide)).mpr
        (show response.declared < 10 ^ 10 by omega)) (by decide)
  have skipped :
      (' ' :: (response.digits ++ (lineBreak ++ behind))).dropWhile
          (fun c => c == ' ' || c == ':') =
        response.digits ++ (lineBreak ++ behind) := by
    obtain ⟨c, digits, shape⟩ := List.exists_cons_of_ne_nil digits_pos
    have isDigit : c.isDigit = true :=
      isDigit_of_mem_digits (shape ▸ List.mem_cons_self)
    have stays : ¬ (c == ' ' || c == ':') = true := by
      rw [Bool.or_eq_true, beq_iff_eq, beq_iff_eq]
      rintro (rfl | rfl) <;> simp at isDigit
    rw [List.dropWhile_cons_of_pos (by decide), shape, List.cons_append,
      List.dropWhile_cons]
    exact if_neg stays
  have lineEnds :
      strstr lineBreak (response.digits ++ (lineBreak ++ behind)) =
        some (lineBreak ++ behind) := by
    refine strstr_append _ _ (fun occurs => ?_) (by decide)
    have member : '\n' ∈ response.digits ++ lineBreak.dropLast :=
      occurs.subset (by decide)
    rcases List.mem_append.mp member with digit | lineEnd
    · exact absurd (isDigit_of_mem_digits digit) (by decide)
    · exact absurd lineEnd (by decide)
  rw [headerValue, shape, strstr_append _ _ wellFormed.firstLength (by decide)]
  dsimp only
  rw [List.drop_left, skipped, lineEnds]
  dsimp only
  rw [List.length_append, Nat.add_sub_cancel, List.take_left,
    List.take_of_length_le short]

theorem headerValue_encodingName {first : CString}
    (start : first <+: response.body) :
    headerValue (response.head ++ (blankLine ++ first)) encodingName = [] := by
  have inside :
      response.head ++ (blankLine ++ first) <+: response.text :=
    (List.prefix_append_right_inj _).mpr
      ((List.prefix_append_right_inj _).mpr start)
  have absent :
      strstr encodingName (response.head ++ (blankLine ++ first)) = none := by
    rw [strstr_eq_none_iff]
    exact fun occurs => wellFormed.noEncoding (occurs.trans inside.isInfix)
  rw [headerValue, absent]

/-! ## The call -/

/-- What the call does is decided by how much of the body came with the head. -/
theorem rpcDoCall_text {incoming : List (List Char)}
    (nonempty : ∀ chunk ∈ incoming, chunk ≠ [])
    (whole : incoming.flatten = response.text) :
    ∃ first rest,
      receiveHead [] incoming =
          (some (response.head ++ (blankLine ++ first)), rest) ∧
        first ++ rest.flatten = response.body ∧
          (∀ chunk ∈ rest, chunk ≠ []) ∧ first.length ≤ response.room ∧
            rpcDoCall incoming =
              rpcReadBody (response.head ++ (blankLine ++ first)) rest := by
  obtain ⟨first, rest, received, body, others, room⟩ :=
    @receiveHead_text response wellFormed [] incoming nonempty whole (by simp)
  refine ⟨first, rest, received, body, others, room, ?_⟩
  have noNul : terminator ∉ response.head ++ (blankLine ++ first) := by
    have parts :
        response.text =
          (response.head ++ (blankLine ++ first)) ++ rest.flatten := by
      rw [Response.text, ← body]
      simp only [List.append_assoc]
    intro member
    apply wellFormed.noNul
    rw [parts]
    exact List.mem_append_left _ member
  have blank : ' ' ∈ response.head ++ (blankLine ++ first) := by
    simp [Response.head]
  have encoding := headerValue_encodingName wellFormed ⟨_, body⟩
  rw [rpcDoCall, received]
  dsimp only
  rw [textOf_of_notMem noNul, if_neg (not_not.mpr blank)]
  rw [if_neg]
  rw [show "Transfer-Encoding:".toList = encodingName from rfl, encoding]
  decide

end Head

/-- The pieces in which a response arrives. -/
structure Arrival (response : Response) where
  chunks : List (List Char)
  nonempty : ∀ chunk ∈ chunks, chunk ≠ []
  whole : chunks.flatten = response.text

/-- The whole response in one piece. -/
def atOnce (response : Response) : Arrival response where
  chunks := [response.text]
  nonempty := by
    rintro chunk member rfl
    have lengths := congrArg List.length (List.mem_singleton.mp member)
    simp [Response.text, blankLine, lineBreak] at lengths
  whole := by simp

theorem recv_atOnce {room : Nat} {text : List Char} (someRoom : 0 < room)
    (nonempty : text ≠ []) :
    ∃ rest, recv room [text] = (some (text.take room), rest) := by
  rw [recv, if_neg (Nat.ne_of_gt someRoom), if_neg nonempty]
  split
  · rename_i fits
    rw [List.take_of_length_le fits]
    exact ⟨_, rfl⟩
  · exact ⟨_, rfl⟩

theorem rpcFinishBody_safe (text : CString) (datalen : Nat)
    (databuf : List Char) (incoming : List (List Char)) :
    (rpcFinishBody text datalen databuf incoming).reply ≠ .fault := by
  rw [rpcFinishBody]
  split
  · simp
  · split <;> simp

section Calls

variable {response : Response} (wellFormed : response.WellFormed)
include wellFormed

/-- The body with its first bytes. -/
theorem rpcReadBody_text {first : CString} (incoming : List (List Char)) :
    rpcReadBody (response.head ++ (blankLine ++ first)) incoming =
      if response.declared < first.length then
        { reply := .fault, incoming := incoming, reconnects := false }
      else
        rpcFinishBody (response.head ++ (blankLine ++ first)) response.declared
          first incoming := by
  have positive := wellFormed.positive
  have small := wellFormed.small
  have noOverflow : toInt ((response.declared : Int) + 1) =
      response.declared + 1 := by
    rw [toInt, BitVec.toInt_ofInt]
    exact Int.bmod_eq_of_le (by omega) (by omega)
  have length :
      atoiInt (headerValue (response.head ++ (blankLine ++ first))
        "Content-Length:".toList) = response.declared := by
    rw [show "Content-Length:".toList = lengthName from rfl,
      headerValue_lengthName wellFormed, Response.digits,
      atoiInt_toDigits (by omega)]
  have found :
      strstr blankLine (response.head ++ (blankLine ++ first)) =
        some (blankLine ++ first) :=
    strstr_append _ _ wellFormed.firstBlank (by decide)
  rw [rpcReadBody, length, found]
  simp only [List.drop_left, Int.toNat_natCast, Nat.cast_lt, noOverflow]
  rw [if_neg (by omega), if_neg (by omega)]

/-- The body is returned, and nothing is left for the next call. -/
theorem rpcDoCall_body (exactLength : response.declared = response.body.length)
    (arrival : Arrival response) :
    ∃ reconnects,
      rpcDoCall arrival.chunks =
        { reply := .text response.body
          incoming := []
          reconnects := reconnects } := by
  obtain ⟨first, rest, -, body, others, -, call⟩ :=
    rpcDoCall_text wellFormed arrival.nonempty arrival.whole
  have lengths := congrArg List.length body
  rw [List.length_append] at lengths
  rw [call, rpcReadBody_text wellFormed, if_neg (by omega), exactLength,
    rpcFinishBody, receiveBody_whole others body]
  dsimp only
  split
  · exact ⟨true, rfl⟩
  · exact ⟨false, rfl⟩

theorem take_text :
    response.text.take (yaampSmallbufsize - 1) =
      response.head ++ (blankLine ++ response.body.take response.room) := by
  have fits := wellFormed.fits
  have blank : blankLine.length = 4 := rfl
  rw [Response.text, List.take_append, List.take_append, blank,
    List.take_of_length_le (show response.head.length ≤ _ by omega),
    List.take_of_length_le (by rw [blank]; omega), Nat.sub_sub, Response.room]

/-- At once as much of the body is received as there is room for. -/
theorem rpcDoCall_atOnce :
    ∃ rest,
      rpcDoCall (atOnce response).chunks =
        rpcReadBody
          (response.head ++
            (blankLine ++ response.body.take response.room)) rest := by
  obtain ⟨first, rest, received, -, -, -, call⟩ :=
    rpcDoCall_text wellFormed (atOnce response).nonempty
      (atOnce response).whole
  obtain ⟨rest', all⟩ :=
    @recv_atOnce (yaampSmallbufsize - ([] : List Char).length - 1)
      response.text (by decide)
      ((atOnce response).nonempty _ (List.mem_singleton_self _))
  have noNul :
      terminator ∉
        response.head ++
          (blankLine ++ response.body.take response.room) := by
    rw [← take_text wellFormed]
    exact fun member => wellFormed.noNul (List.mem_of_mem_take member)
  have head := receiveHead_of_recv all
  rw [List.nil_append, List.length_nil, Nat.sub_zero, take_text wellFormed,
    textOf_of_notMem noNul,
    strstr_append _ _ wellFormed.firstBlank (by decide)] at head
  have same := received.symm.trans head
  simp only [Option.isSome_some, if_true, Prod.mk.injEq, Option.some.injEq,
    List.append_cancel_left_eq] at same
  obtain ⟨rfl, rfl⟩ := same
  exact ⟨rest, call⟩

/--
No division of a response makes the call write outside of its memory exactly
when the part of the body for which the buffer has room is not longer than the
length that is declared.
-/
theorem rpcDoCall_safe_iff :
    (∀ arrival : Arrival response,
      (rpcDoCall arrival.chunks).reply ≠ .fault) ↔
      min response.body.length response.room ≤ response.declared := by
  constructor
  · intro safe
    have fault := safe (atOnce response)
    obtain ⟨rest, call⟩ := rpcDoCall_atOnce wellFormed
    rw [call, rpcReadBody_text wellFormed] at fault
    split at fault
    · exact absurd rfl fault
    · rename_i enough
      rw [List.length_take] at enough
      omega
  · intro enough arrival
    obtain ⟨first, rest, -, body, others, room, call⟩ :=
      rpcDoCall_text wellFormed arrival.nonempty arrival.whole
    have lengths := congrArg List.length body
    rw [List.length_append] at lengths
    rw [call, rpcReadBody_text wellFormed, if_neg (by omega)]
    exact rpcFinishBody_safe _ _ _ _

end Calls

/-- A response with an empty object. -/
def emptyObject (declared : Nat) : Response where
  front := "HTTP/1.1 200 OK".toList ++ lineBreak
  declared := declared
  others := []
  body := ['{', '}']

theorem wellFormed_short : (emptyObject 1).WellFormed where
  noNul := by decide
  firstLength := by decide
  firstBlank := by decide
  ends := Or.inl rfl
  noEncoding := by decide
  fits := by decide
  positive := by decide
  small := by decide

theorem rpcDoCall_safe_iff_short :
    (∀ arrival : Arrival (emptyObject 1),
      (rpcDoCall arrival.chunks).reply ≠ .fault) ↔
      min (emptyObject 1).body.length (emptyObject 1).room ≤
        (emptyObject 1).declared :=
  rpcDoCall_safe_iff wellFormed_short

/-! ## An answer in three pieces -/

/-- A daemon takes a block: the result and the error are `null`. -/
def takenAnswer : Response where
  front := "HTTP/1.1 200 OK".toList ++ lineBreak
  declared := 28
  others := lineBreak ++ "Connection: keep-alive".toList
  body :=
    ['{', '"', 'r', 'e', 's', 'u', 'l', 't', '"', ':', 'n', 'u', 'l', 'l',
      ',', '"', 'e', 'r', 'r', 'o', 'r', '"', ':', 'n', 'u', 'l', 'l', '}']

theorem wellFormed_takenAnswer : takenAnswer.WellFormed where
  noNul := by decide +kernel
  firstLength := by decide +kernel
  firstBlank := by decide +kernel
  ends := Or.inr ⟨_, rfl⟩
  noEncoding := by decide +kernel
  fits := by decide +kernel
  positive := by decide +kernel
  small := by decide +kernel

/-- A piece ends in the header, and another one in the body. -/
def takenArrival : Arrival takenAnswer where
  chunks :=
    [takenAnswer.text.take 30, (takenAnswer.text.drop 30).take 50,
      takenAnswer.text.drop 80]
  nonempty := by decide +kernel
  whole := by decide +kernel

end YiimpStratum.Rpc
