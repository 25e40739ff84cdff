import YiimpStratum.Parse.Accepted
import YiimpStratum.Rpc.Response

/-!
# Calls and their results

The text of a call is a JSON object with the method, the parameters and the
number of the call, and what a call returns is the object that the body of the
response denotes.
-/

namespace YiimpStratum.Rpc

open YiimpStratum
open YiimpStratum.Util
open YiimpStratum.Parse
open YiimpStratum.Rounds

/-! ## The result of a call -/

section Result

variable {response : Response} (wellFormed : response.WellFormed)
variable (exactLength : response.declared = response.body.length)
variable (arrival : Arrival response)
include wellFormed exactLength

/-- The parser gets the body of the response. -/
theorem rpcCall_eq (doubles : Doubles) (rounds : Nat) :
    rpcCall doubles arrival.chunks rounds =
      (jsonParse doubles response.body rounds).map onlyObject := by
  obtain ⟨reconnects, call⟩ := rpcDoCall_body wellFormed exactLength arrival
  have noNul : terminator ∉ response.body := by
    intro member
    apply wellFormed.noNul
    rw [Response.text]
    exact List.mem_append_right _ (List.mem_append_right _ member)
  rw [rpcCall, call]
  dsimp only
  rw [textOf_of_notMem noNul]

theorem returns_rpcCall {doubles : Doubles} {parsed : Parsed}
    (returns : Returns (jsonParse doubles response.body) parsed) :
    Returns (rpcCall doubles arrival.chunks) (onlyObject parsed) := by
  obtain ⟨enough, all⟩ := returns
  refine ⟨enough, fun rounds more => ?_⟩
  rw [rpcCall_eq wellFormed exactLength, all rounds more, Option.map_some]

end Result

/-- The root is an object exactly for the text of an object. -/
theorem isObject_filled (value : Json) :
    isObject (filled none 0 value) = true ↔
      ∃ members, value = .object members := by
  cases value with
  | object members => exact ⟨fun _ => ⟨members, rfl⟩, fun _ => rfl⟩
  | array elements => simp [isObject, layout, fill]
  | integer value => simp [isObject, layout, fill]
  | double value => simp [isObject, layout, fill]
  | string text => simp [isObject, layout, fill]
  | boolean value => simp [isObject, layout, fill]
  | null => simp [isObject, layout, fill]

section Outcome

variable {doubles : Doubles} {response : Response}

/-- A call ends with the object that the body denotes, or with `NULL`. -/
theorem rpcCall_ends (wellFormed : response.WellFormed)
    (exactLength : response.declared = response.body.length)
    (fits : 24 * response.body.length < 2 ^ 31)
    (arrival : Arrival response) :
    (Returns (rpcCall doubles arrival.chunks) .null ∧
        ∀ members, ¬ Denotes doubles response.body (.object members)) ∨
      ∃ members, Denotes doubles response.body (.object members) ∧
        Returns (rpcCall doubles arrival.chunks)
          (.values (filled none 0 (.object members))) := by
  rcases jsonParse_ends doubles fits with null | ⟨value, denotes, parsed⟩
  · refine Or.inl ⟨returns_rpcCall wellFormed exactLength arrival null, ?_⟩
    intro members denotes
    exact absurd (null.unique (jsonParse_of_denotes fits denotes)) (by simp)
  · have returns := returns_rpcCall wellFormed exactLength arrival parsed
    rw [onlyObject] at returns
    split at returns
    · rename_i isObject
      obtain ⟨members, rfl⟩ := (isObject_filled value).mp isObject
      exact Or.inr ⟨members, denotes, returns⟩
    · rename_i other
      refine Or.inl ⟨returns, fun members object => other ?_⟩
      exact (isObject_filled value).mpr ⟨members, denotes.unique fits object⟩

/--
Whatever the pieces of the response, a call returns values from which an object
is read back exactly when the body denotes this object.
-/
theorem rpcCall_iff (wellFormed : response.WellFormed)
    (exactLength : response.declared = response.body.length)
    (fits : 24 * response.body.length < 2 ^ 31)
    (arrival : Arrival response) (value : Json) :
    (∃ values, Returns (rpcCall doubles arrival.chunks) (.values values) ∧
      ∀ levels, size value ≤ levels →
        readValue values levels 0 = some value) ↔
      (∃ members, value = .object members) ∧
        Denotes doubles response.body value := by
  have ends := @rpcCall_ends doubles response wellFormed exactLength fits
    arrival
  constructor
  · rintro ⟨values, returns, read⟩
    rcases ends with ⟨null, -⟩ | ⟨members, denotes, object⟩
    · exact absurd (null.unique returns) (by simp)
    · have same := object.unique returns
      injection same with memory
      have read' :=
        readValue_root (.object members) (Nat.le_max_right (size value) _)
      rw [memory, read _ (Nat.le_max_left _ (size (.object members)))] at read'
      obtain rfl := Option.some.inj read'
      exact ⟨⟨members, rfl⟩, denotes⟩
  · rintro ⟨⟨members, rfl⟩, denotes⟩
    rcases ends with ⟨-, absent⟩ | ⟨other, denotes', object⟩
    · exact absurd denotes (absent members)
    · rw [denotes.unique fits denotes']
      exact ⟨_, object, fun _ => readValue_root (.object other)⟩

end Outcome

/-! ## An answer that is read back -/

/-- Characters that stand in a string as they are. -/
def Plain (text : CString) : Prop :=
  ∀ c ∈ text, c ≠ terminator ∧ c ≠ '\\' ∧ c ≠ '"'

instance (text : CString) : Decidable (Plain text) :=
  List.decidableBAll (fun c => c ≠ terminator ∧ c ≠ '\\' ∧ c ≠ '"') text

theorem characters_plain {text : CString} (plain : Plain text)
    (rest : List Char) : Characters (text ++ '"' :: rest) text rest := by
  induction text with
  | nil => exact Characters.close rest
  | cons c text ih =>
      obtain ⟨⟨visible, unescaped, unquoted⟩, others⟩ :=
        List.forall_mem_cons.mp plain
      exact Characters.plain c visible unescaped unquoted (ih others)

def takenMembers : List (CString × Json) :=
  [("result".toList, .null), ("error".toList, .null)]

theorem denotes_takenAnswer :
    Denotes noDoubles takenAnswer.body (.object takenMembers) := by
  refine ⟨[], ?_, Trailing.nil⟩
  have result (rest : List Char) :
      Characters (['r', 'e', 's', 'u', 'l', 't', '"'] ++ rest)
        "result".toList rest :=
    @characters_plain "result".toList (by decide) rest
  have error (rest : List Char) :
      Characters (['e', 'r', 'r', 'o', 'r', '"'] ++ rest)
        "error".toList rest :=
    @characters_plain "error".toList (by decide) rest
  exact .object
    (.member (result _) (.none _) (.null _)
      (.memberComma
        (.member (error _) (.none _) (.null _) (.noMembers true []))))

/-- The object of the answer is read back from what the call returns. -/
theorem rpcCall_takenArrival :
    ∃ values,
      Returns (rpcCall noDoubles takenArrival.chunks) (.values values) ∧
        ∀ levels, size (.object takenMembers) ≤ levels →
          readValue values levels 0 = some (.object takenMembers) :=
  (rpcCall_iff wellFormed_takenAnswer rfl (by decide) takenArrival _).mpr
    ⟨⟨_, rfl⟩, denotes_takenAnswer⟩

/-! ## The text of a call -/

theorem plain_toDigits (number : Nat) : Plain (Nat.toDigits 10 number) := by
  intro c member
  have isDigit : c.isDigit = true :=
    Nat.isDigit_of_mem_toDigits (by decide) (by decide) member
  refine ⟨?_, ?_, ?_⟩ <;> rintro rfl <;> exact absurd isDigit (by decide)

/-- The text of parameters, and the value that it denotes. -/
structure Params (doubles : Doubles) where
  text : CString
  value : Json
  derives : ∀ rest,
    Derives doubles (.value value) (text ++ ',' :: rest) (',' :: rest)

def methodName : CString :=
  ['m', 'e', 't', 'h', 'o', 'd']

def paramsName : CString :=
  ['p', 'a', 'r', 'a', 'm', 's']

def idName : CString :=
  ['i', 'd']

/-- The object that a call sends. -/
def callObject (method : CString) (params : Option Json) (id : Nat) : Json :=
  .object
    ((methodName, .string method) ::
      ((params.map fun value => (paramsName, value)).toList ++
        [(idName, .string (Nat.toDigits 10 id))]))

/-! The texts between the values. -/

theorem text_method :
    "\x7b\"method\":\"".toList =
      '{' :: '"' :: (methodName ++ ['"', ':', '"']) :=
  rfl

theorem text_params :
    "\",\"params\":".toList = '"' :: ',' :: '"' :: (paramsName ++ ['"', ':']) :=
  rfl

theorem text_idBehindParams :
    ",\"id\":\"".toList = ',' :: '"' :: (idName ++ ['"', ':', '"']) :=
  rfl

theorem text_id :
    "\",\"id\":\"".toList = '"' :: ',' :: '"' :: (idName ++ ['"', ':', '"']) :=
  rfl

theorem text_end : "\"\x7d".toList = ['"', '}'] :=
  rfl

section Message

variable {doubles : Doubles}

/-- A member whose name needs no escapes, and the comma behind it. -/
theorem derives_member {name : CString} (plain : Plain name) {json : Json}
    {members : List (CString × Json)} {i middle rest : List Char}
    (first : Derives doubles (.value json) i middle)
    (more : Derives doubles (.members true members) middle rest) :
    Derives doubles (.members false ((name, json) :: members))
      ('"' :: (name ++ '"' :: ':' :: i)) rest :=
  Derives.member (characters_plain plain _) (Blanks.none _) first more

theorem derives_plain {text : CString} (plain : Plain text)
    (rest : List Char) :
    Derives doubles (.value (.string text)) ('"' :: (text ++ '"' :: rest))
      rest :=
  Derives.string (characters_plain plain rest)

/-- The number of the call and the end of the object. -/
theorem derives_id (id : Nat) :
    Derives doubles
      (.members true [(idName, .string (Nat.toDigits 10 id))])
      (',' :: '"' :: (idName ++ '"' :: ':' :: '"' ::
        (Nat.toDigits 10 id ++ '"' :: ['}']))) [] :=
  Derives.memberComma
    (derives_member (by decide) (derives_plain (plain_toDigits id) _)
      (Derives.noMembers true []))

theorem message_none (method : CString) (id : Nat) :
    message method none id =
      '{' :: '"' :: (methodName ++ '"' :: ':' :: '"' ::
        (method ++ '"' :: ',' :: '"' :: (idName ++ '"' :: ':' :: '"' ::
          (Nat.toDigits 10 id ++ '"' :: ['}'])))) := by
  unfold message
  dsimp only
  rw [text_method, text_id, text_end]
  simp only [List.cons_append, List.append_assoc, List.nil_append]

theorem message_some (method params : CString) (id : Nat) :
    message method (some params) id =
      '{' :: '"' :: (methodName ++ '"' :: ':' :: '"' ::
        (method ++ '"' :: ',' :: '"' :: (paramsName ++ '"' :: ':' ::
          (params ++ ',' :: '"' :: (idName ++ '"' :: ':' :: '"' ::
            (Nat.toDigits 10 id ++ '"' :: ['}'])))))) := by
  unfold message
  dsimp only
  rw [text_method, text_params, text_idBehindParams, text_end]
  simp only [List.cons_append, List.append_assoc, List.nil_append]

/-- What a call sends is the text of its object. -/
theorem denotes_message {method : CString} (plain : Plain method)
    (params : Option (Params doubles)) (id : Nat) :
    Denotes doubles (message method (params.map Params.text) id)
      (callObject method (params.map Params.value) id) := by
  refine ⟨[], ?_, Trailing.nil⟩
  cases params with
  | none =>
      rw [Option.map_none, Option.map_none, message_none,
        skipMark_cons (by decide)]
      exact Derives.object
        (derives_member (by decide) (derives_plain plain _) (derives_id id))
  | some params =>
      rw [Option.map_some, Option.map_some, message_some,
        skipMark_cons (by decide)]
      exact Derives.object
        (derives_member (by decide) (derives_plain plain _)
          (Derives.memberComma
            (derives_member (by decide) (params.derives _) (derives_id id))))

/--
What a call sends is read back as an object of the method, the parameters and
the number of the call.
-/
theorem jsonParse_message {method : CString} (plain : Plain method)
    (params : Option (Params doubles)) (id : Nat)
    (fits :
      24 * (message method (params.map Params.text) id).length < 2 ^ 31) :
    ∃ values,
      Returns
          (jsonParse doubles (message method (params.map Params.text) id))
          (.values values) ∧
        ∀ levels,
          size (callObject method (params.map Params.value) id) ≤ levels →
            readValue values levels 0 =
              some (callObject method (params.map Params.value) id) :=
  ⟨_, jsonParse_of_denotes fits (denotes_message plain params id),
    fun _ => readValue_root _⟩

end Message

/-- The parameters `[]`. -/
def noParams : Params noDoubles where
  text := ['[', ']']
  value := .array []
  derives rest := Derives.array (Derives.noElements false (',' :: rest))

theorem jsonParse_message_getinfo :
    ∃ values,
      Returns
          (jsonParse noDoubles
            (message ['g', 'e', 't', 'i', 'n', 'f', 'o']
              ((some noParams).map Params.text) 1))
          (.values values) ∧
        ∀ levels,
          size
              (callObject ['g', 'e', 't', 'i', 'n', 'f', 'o']
                ((some noParams).map Params.value) 1) ≤ levels →
            readValue values levels 0 =
              some
                (callObject ['g', 'e', 't', 'i', 'n', 'f', 'o']
                  ((some noParams).map Params.value) 1) :=
  jsonParse_message (by decide) (some noParams) 1 (by decide)

end YiimpStratum.Rpc
