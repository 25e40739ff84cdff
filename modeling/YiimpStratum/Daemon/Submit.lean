import YiimpStratum.Dispatch.Request
import YiimpStratum.Rpc.Parsed

/-!
# Handing a block to a daemon

The functions of `coind_submit.cpp` behind the text of their call: what they
make of the answer of the daemon.  When the answer has an error, its message is
read for the log, whatever the type of the error is.

They return true exactly for the answers that say so, wherever the calls of
`recv` divide the response.
-/

namespace YiimpStratum.Daemon

open YiimpStratum
open YiimpStratum.Util
open YiimpStratum.Parse
open YiimpStratum.Dispatch
open YiimpStratum.Rpc
open YiimpStratum.Rounds

/-! ## The answer -/

/-- A write outside of the memory, or a read that does not fit the type. -/
inductive Fault where
  | memory
  | read (violation : Violation)

/-- `json_get_string(json_error, "message")`, for the log. -/
def errorMessage (error : Json) : Except Fault (Option CString) :=
  match error with
  | .object members =>
      match Json.lookup members "message".toList with
      | none => .ok none
      | some message => (pointerText message).mapError Fault.read
  | value =>
      if length value = 0 then .ok none
      else .error (.read (.elements value))

def isNull : Json → Bool
  | .null => true
  | _ => false

/-- `type == json_boolean && u.boolean` -/
def isTrue : Json → Bool
  | .boolean value => value
  | _ => false

/-- The error of an answer, when it is not `null`. -/
def errorOf (members : List (CString × Json)) : Option Json :=
  (Json.lookup members "error".toList).filter fun error => ! isNull error

def resultOf (members : List (CString × Json)) : Option Json :=
  Json.lookup members "result".toList

/-- The answer is looked at for an error first. -/
def withoutError (succeeds : Json → Bool) (members : List (CString × Json)) :
    Except Fault Bool :=
  match errorOf members with
  | some error => do
      let _ ← errorMessage error
      pure false
  | none => pure ((resultOf members).any succeeds)

def ofObject (answer : List (CString × Json) → Except Fault Bool) :
    Json → Except Fault Bool
  | .object members => answer members
  | _ => pure false

/-- What becomes of the object that `rpc_call` returns; `NULL` is a failure. -/
def answered (answer : List (CString × Json) → Except Fault Bool) :
    Parsed → Except Fault Bool
  | .values values =>
      match readValue values values.length 0 with
      | some root => ofObject answer root
      | none => pure false
  | .null => pure false
  | .fault => .error .memory

/-! ## The functions -/

section Functions

variable (doubles : Doubles) (incoming : List (List Char)) (rounds : Nat)

/-- A call whose answer is looked at for an error and for its result. -/
def submitCall (succeeds : Json → Bool) : Option (Except Fault Bool) :=
  (rpcCall doubles incoming rounds).map (answered (withoutError succeeds))

def coindSubmitblock : Option (Except Fault Bool) :=
  submitCall doubles incoming rounds isNull

def coindSubmitblocktemplate : Option (Except Fault Bool) :=
  submitCall doubles incoming rounds isNull

/-- Some coins answer `null` to an auxiliary block that they accept. -/
def coindSubmitgetauxblock : Option (Except Fault Bool) :=
  submitCall doubles incoming rounds fun result =>
    isTrue result || isNull result

/-- The call is made again when there is no answer. -/
def coindSubmitwork (again : List (List Char)) :
    Option (Except Fault Bool) := do
  let first ← rpcCall doubles incoming rounds
  let parsed ←
    match first with
    | .null => rpcCall doubles again rounds
    | parsed => some parsed
  pure (answered (fun members => pure ((resultOf members).any isTrue)) parsed)

end Functions

/-! ## When a block is accepted -/

theorem answered_object (answer : List (CString × Json) → Except Fault Bool)
    (members : List (CString × Json)) :
    answered answer (.values (filled none 0 (.object members))) =
      answer members := by
  rw [answered,
    @readValue_root (.object members) (filled none 0 (.object members)).length
      (Nat.le_of_eq (length_layout _ _ _ _).symm)]
  rfl

theorem withoutError_iff (succeeds : Json → Bool)
    (members : List (CString × Json)) :
    withoutError succeeds members = .ok true ↔
      errorOf members = none ∧ (resultOf members).any succeeds = true := by
  rw [withoutError]
  cases found : errorOf members with
  | none => simp [pure, Except.pure]
  | some error =>
      dsimp only
      cases errorMessage error with
      | ok text => simp [bind, Except.bind, pure, Except.pure]
      | error fault => simp [bind, Except.bind]

theorem any_isNull_iff (result : Option Json) :
    result.any isNull = true ↔ result = some .null := by
  cases result with
  | none => simp
  | some value => cases value <;> simp [isNull]

theorem any_isTrue_iff (result : Option Json) :
    result.any isTrue = true ↔ result = some (.boolean true) := by
  cases result with
  | none => simp
  | some value => cases value <;> simp [isTrue]

section Calls

variable {doubles : Doubles} {response : Response}

/-- A call succeeds exactly when its body is an object of a good answer. -/
theorem returns_answered_iff (wellFormed : response.WellFormed)
    (exactLength : response.declared = response.body.length)
    (fits : 24 * response.body.length < 2 ^ 31)
    (arrival : Arrival response)
    (answer : List (CString × Json) → Except Fault Bool) :
    Returns
        (fun rounds =>
          (rpcCall doubles arrival.chunks rounds).map (answered answer))
        (.ok true) ↔
      ∃ members,
        Denotes doubles response.body (.object members) ∧
          answer members = .ok true := by
  rcases @rpcCall_ends doubles response wellFormed exactLength fits
    arrival with ⟨null, absent⟩ | ⟨members, denotes, object⟩
  · refine iff_of_false (fun succeeded => ?_) ?_
    · exact absurd ((null.map (answered answer)).unique succeeded)
        (by simp [answered, pure, Except.pure])
    · rintro ⟨members, denotes, -⟩
      exact absent members denotes
  · have answers := object.map (answered answer)
    rw [answered_object] at answers
    constructor
    · intro succeeded
      exact ⟨members, denotes, answers.unique succeeded⟩
    · rintro ⟨other, denotes', accepted⟩
      cases denotes.unique fits denotes'
      rwa [accepted] at answers

/--
Wherever the response is divided, the call succeeds exactly when the body is
the text of an object without an error whose result is a success.
-/
theorem submitCall_iff (wellFormed : response.WellFormed)
    (exactLength : response.declared = response.body.length)
    (fits : 24 * response.body.length < 2 ^ 31)
    (arrival : Arrival response) (succeeds : Json → Bool) :
    Returns
        (fun rounds => submitCall doubles arrival.chunks rounds succeeds)
        (.ok true) ↔
      ∃ members,
        Denotes doubles response.body (.object members) ∧
          errorOf members = none ∧
            (resultOf members).any succeeds = true := by
  simp only [submitCall,
    returns_answered_iff wellFormed exactLength fits arrival,
    withoutError_iff]

end Calls

/-- The block is taken, with an answer in three pieces. -/
theorem submitCall_takenArrival :
    Returns
      (fun rounds =>
        submitCall noDoubles takenArrival.chunks rounds isNull)
      (.ok true) :=
  (submitCall_iff wellFormed_takenAnswer rfl (by decide) takenArrival
    isNull).mpr
    ⟨_, denotes_takenAnswer, rfl, rfl⟩

/-! ## The calls one by one -/

/-- Without a first answer the second call decides. -/
theorem returns_coindSubmitwork_of_null {doubles : Doubles}
    {incoming : List (List Char)}
    (null : Returns (rpcCall doubles incoming) .null)
    (again : List (List Char)) (value : Except Fault Bool) :
    Returns (fun rounds => coindSubmitwork doubles incoming rounds again)
        value ↔
      Returns
        (fun rounds =>
          (rpcCall doubles again rounds).map
            (answered fun members => pure ((resultOf members).any isTrue)))
        value := by
  obtain ⟨enough, all⟩ := null
  have calledAgain : ∀ rounds, enough ≤ rounds →
      coindSubmitwork doubles incoming rounds again =
        (rpcCall doubles again rounds).map
          (answered fun members => pure ((resultOf members).any isTrue)) := by
    intro rounds more
    rw [coindSubmitwork, all rounds more]
    exact (Option.map_eq_bind).symm
  exact Returns.congr calledAgain

theorem returns_coindSubmitwork_of_object {doubles : Doubles}
    {incoming : List (List Char)} {members : List (CString × Json)}
    (object :
      Returns (rpcCall doubles incoming)
        (.values (filled none 0 (.object members))))
    (again : List (List Char)) :
    Returns (fun rounds => coindSubmitwork doubles incoming rounds again)
      (pure ((resultOf members).any isTrue)) := by
  obtain ⟨enough, all⟩ := object
  refine ⟨enough, fun rounds more => ?_⟩
  dsimp only
  rw [coindSubmitwork, all rounds more]
  exact congrArg some (answered_object _ members)

section Functions

variable {doubles : Doubles} {response : Response}
variable (wellFormed : response.WellFormed)
variable (exactLength : response.declared = response.body.length)
variable (fits : 24 * response.body.length < 2 ^ 31)
variable (arrival : Arrival response)
include wellFormed exactLength fits

/-- A block is taken when there is no error and the result is `null`. -/
theorem coindSubmitblock_iff :
    Returns
        (fun rounds => coindSubmitblock doubles arrival.chunks rounds)
        (.ok true) ↔
      ∃ members,
        Denotes doubles response.body (.object members) ∧
          errorOf members = none ∧ resultOf members = some .null := by
  simp only [coindSubmitblock, submitCall,
    returns_answered_iff wellFormed exactLength fits arrival,
    withoutError_iff, any_isNull_iff]

/-- A block that is handed over with `getblocktemplate` is taken alike. -/
theorem coindSubmitblocktemplate_iff :
    Returns
        (fun rounds => coindSubmitblocktemplate doubles arrival.chunks rounds)
        (.ok true) ↔
      ∃ members,
        Denotes doubles response.body (.object members) ∧
          errorOf members = none ∧ resultOf members = some .null :=
  coindSubmitblock_iff wellFormed exactLength fits arrival

/-- An auxiliary block is taken with the result `true` as well. -/
theorem coindSubmitgetauxblock_iff :
    Returns
        (fun rounds => coindSubmitgetauxblock doubles arrival.chunks rounds)
        (.ok true) ↔
      ∃ members,
        Denotes doubles response.body (.object members) ∧
          errorOf members = none ∧
            (resultOf members = some (.boolean true) ∨
              resultOf members = some .null) := by
  have either (result : Option Json) :
      (result.any fun value => isTrue value || isNull value) = true ↔
        result = some (.boolean true) ∨ result = some .null := by
    rw [← any_isTrue_iff, ← any_isNull_iff]
    cases result with
    | none => simp
    | some value => simp
  simp only [coindSubmitgetauxblock, submitCall,
    returns_answered_iff wellFormed exactLength fits arrival,
    withoutError_iff, either]

/--
Work is taken when the result is `true`, whatever the error is; the call is
made again when the first body is not the text of an object.
-/
theorem coindSubmitwork_iff {second : Response}
    (wellFormed' : second.WellFormed)
    (exactLength' : second.declared = second.body.length)
    (fits' : 24 * second.body.length < 2 ^ 31) (again : Arrival second) :
    Returns
        (fun rounds =>
          coindSubmitwork doubles arrival.chunks rounds again.chunks)
        (.ok true) ↔
      (∃ members,
        Denotes doubles response.body (.object members) ∧
          resultOf members = some (.boolean true)) ∨
        (∀ members, ¬ Denotes doubles response.body (.object members)) ∧
          ∃ members,
            Denotes doubles second.body (.object members) ∧
              resultOf members = some (.boolean true) := by
  have taken (members : List (CString × Json)) :
      (pure ((resultOf members).any isTrue) : Except Fault Bool) =
          .ok true ↔
        resultOf members = some (.boolean true) := by
    rw [← any_isTrue_iff]
    simp [pure, Except.pure]
  have retried :=
    @returns_answered_iff doubles second wellFormed' exactLength' fits' again
      fun members => pure ((resultOf members).any isTrue)
  simp only [taken] at retried
  rcases @rpcCall_ends doubles response wellFormed exactLength fits
    arrival with ⟨null, absent⟩ | ⟨members, denotes, object⟩
  · rw [returns_coindSubmitwork_of_null null, retried]
    constructor
    · exact fun accepted => Or.inr ⟨absent, accepted⟩
    · rintro (⟨members, denotes, -⟩ | ⟨-, accepted⟩)
      · exact absurd denotes (absent members)
      · exact accepted
  · have answers := returns_coindSubmitwork_of_object object again.chunks
    constructor
    · intro accepted
      exact Or.inl
        ⟨members, denotes, (taken members).mp (answers.unique accepted)⟩
    · rintro (⟨other, denotes', accepted⟩ | ⟨absent, -⟩)
      · cases denotes.unique fits denotes'
        rwa [(taken members).mpr accepted] at answers
      · exact absurd denotes (absent members)

end Functions

end YiimpStratum.Daemon
