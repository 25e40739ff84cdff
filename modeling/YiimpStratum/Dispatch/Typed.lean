import YiimpStratum.Dispatch.Request

/-!
# Requests that are read by their types

Which requests are served without a read of the wrong type.  For each handler
this is a demand on the parameters that it reads, and only on these: a handler
that returns early reads no more.
-/

namespace YiimpStratum.Dispatch

open YiimpStratum
open YiimpStratum.Util

variable {α β : Type}

/-! ## Demands on a request -/

/-- The parameters are an array whose element at `index` fits. -/
def HasElement (params : Json) (index : Nat) (fits : Json → Prop) : Prop :=
  ∃ elements, params = .array elements ∧ fits (elements[index]?.getD .null)

/-- A parameter that is read for its string, if there is one. -/
def OptionalTyped (params : Json) (index : Nat) : Prop :=
  index < length params →
    HasElement params index fun value => value.isContainer = false

def SubscribeTyped (params : Json) : Prop :=
  OptionalTyped params 0 ∧ OptionalTyped params 1

def AuthorizeTyped (around : Surroundings) (params : Json) : Prop :=
  around.listed = true ∨
    OptionalTyped params 1 ∧ (around.full = true ∨ OptionalTyped params 0)

def SubmitTyped (params : Json) : Prop :=
  5 ≤ length params → params.isArray = true

def SuggestTyped (params : Json) : Prop :=
  0 < length params →
    HasElement params 0 fun value => value.isInteger = false

/-- The hash is read only after the password and the coin are known. -/
def UpdateTyped (around : Surroundings) (params : Json) : Prop :=
  3 ≤ length params → HasElement params 0 fun password =>
    password.isContainer = false ∧
      (password.stringValue = some around.tcpPassword →
        HasElement params 1 fun coin =>
          intMember coin ≠ 0 ∧ around.coinListed (intMember coin) = true →
            HasElement params 2 fun hash => hash.isString = true)

/-- The demand of the handler with this name. -/
def ParamsTyped (around : Surroundings) (method : CString) (params : Json) :
    Prop :=
  (method = "mining.subscribe".toList → SubscribeTyped params) ∧
    (method = "mining.authorize".toList → AuthorizeTyped around params) ∧
    (method = "mining.submit".toList → SubmitTyped params) ∧
    (method = "mining.suggest_difficulty".toList → SuggestTyped params) ∧
    (method = "mining.update_block".toList → UpdateTyped around params)

/-- The identifier is a string of more than 32 characters. -/
def LongId (members : List (CString × Json)) : Prop :=
  ∃ id text, Json.lookup members "id".toList = some id ∧
    id.stringValue = some text ∧ 32 < text.length

def RequestTyped (around : Surroundings) (members : List (CString × Json)) :
    Prop :=
  (∀ id, Json.lookup members "id".toList = some id →
    id.isContainer = false) ∧
    (LongId members ∨
      ∀ method params, Json.lookup members "method".toList = some method →
        Json.lookup members "params".toList = some params →
          method.isContainer = false ∧
            ∀ name, method.stringValue = some name →
              ParamsTyped around name params)

/-! ## Runs without a violation -/

def Succeeds (action : Except Violation α) : Prop :=
  ∃ value, action = .ok value

theorem succeeds_pure (value : α) : Succeeds (pure value) :=
  ⟨value, rfl⟩

theorem succeeds_ok (value : α) : Succeeds (.ok value) :=
  ⟨value, rfl⟩

theorem not_succeeds_error (violation : Violation) :
    ¬ Succeeds (.error violation : Except Violation α) := by
  rintro ⟨value, same⟩
  cases same

/-- Two reads succeed when the first does and then the second. -/
theorem succeeds_bind_iff (action : Except Violation α)
    (next : α → Except Violation β) :
    Succeeds (action >>= next) ↔
      ∃ value, action = .ok value ∧ Succeeds (next value) := by
  cases action with
  | ok value =>
      constructor
      · intro succeeds
        exact ⟨value, rfl, succeeds⟩
      · rintro ⟨other, same, succeeds⟩
        rw [Except.ok.inj same]
        exact succeeds
  | error violation =>
      constructor
      · intro succeeds
        exact absurd succeeds (not_succeeds_error violation)
      · rintro ⟨other, same, -⟩
        cases same

/-- When what follows does not depend on the value that was read. -/
theorem succeeds_bind_const_iff (action : Except Violation α)
    {next : α → Except Violation β} {rest : Prop}
    (same : ∀ value, Succeeds (next value) ↔ rest) :
    Succeeds (action >>= next) ↔ Succeeds action ∧ rest := by
  rw [succeeds_bind_iff]
  constructor
  · rintro ⟨value, read, succeeds⟩
    exact ⟨⟨value, read⟩, (same value).mp succeeds⟩
  · rintro ⟨⟨value, read⟩, fits⟩
    exact ⟨value, read, (same value).mpr fits⟩

/-- What is answered behind a read does not matter. -/
theorem succeeds_bind_pure_iff (action : Except Violation α)
    (answer : α → β) :
    Succeeds (action >>= fun value => pure (answer value)) ↔
      Succeeds action := by
  rw [succeeds_bind_const_iff action fun value =>
    iff_true_intro (succeeds_pure (answer value)), and_true]

/-! ## Single reads -/

/-- The pointer of a string is read of no array or object. -/
theorem succeeds_pointerText_iff (value : Json) :
    Succeeds (pointerText value) ↔ value.isContainer = false := by
  cases value with
  | object members =>
      exact ⟨fun bad => absurd bad (not_succeeds_error _),
        fun bad => Bool.noConfusion bad⟩
  | array elements =>
      exact ⟨fun bad => absurd bad (not_succeeds_error _),
        fun bad => Bool.noConfusion bad⟩
  | string text => exact ⟨fun _ => rfl, fun _ => succeeds_ok _⟩
  | integer number => exact ⟨fun _ => rfl, fun _ => succeeds_ok _⟩
  | double number => exact ⟨fun _ => rfl, fun _ => succeeds_ok _⟩
  | boolean truth => exact ⟨fun _ => rfl, fun _ => succeeds_ok _⟩
  | null => exact ⟨fun _ => rfl, fun _ => succeeds_ok _⟩

/-- A text is read of strings only. -/
theorem succeeds_readText_iff (value : Json) :
    Succeeds (readText value) ↔ value.isString = true := by
  cases value with
  | string text => exact ⟨fun _ => rfl, fun _ => succeeds_ok _⟩
  | _ =>
      exact ⟨fun bad => absurd bad (not_succeeds_error _),
        fun bad => Bool.noConfusion bad⟩

/-- A double is read of every value but an integer. -/
theorem succeeds_readDouble_iff (value : Json) :
    Succeeds (readDouble value) ↔ value.isInteger = false := by
  cases value with
  | integer number =>
      exact ⟨fun bad => absurd bad (not_succeeds_error _),
        fun bad => Bool.noConfusion bad⟩
  | _ => exact ⟨fun _ => rfl, fun _ => succeeds_ok _⟩

/-- Outside of arrays and objects the pointer is that of the string. -/
theorem pointerText_eq {value : Json} (plain : value.isContainer = false) :
    pointerText value = .ok value.stringValue := by
  cases value with
  | object members => exact Bool.noConfusion plain
  | array elements => exact Bool.noConfusion plain
  | _ => rfl

/-- An element of the parameters is read, and then something is done with it. -/
theorem succeeds_element_iff (params : Json) (index : Nat)
    (next : Json → Except Violation β) :
    Succeeds (element params index >>= next) ↔
      HasElement params index fun value => Succeeds (next value) := by
  cases params with
  | array elements =>
      constructor
      · intro succeeds
        exact ⟨elements, rfl, succeeds⟩
      · rintro ⟨others, same, succeeds⟩
        rw [Json.array.inj same]
        exact succeeds
  | _ =>
      constructor
      · intro bad
        exact absurd bad (not_succeeds_error _)
      · rintro ⟨others, same, -⟩
        exact Json.noConfusion same

theorem HasElement.congr {params : Json} {index : Nat}
    {fits suits : Json → Prop}
    (same : ∀ value, fits value ↔ suits value) :
    HasElement params index fits ↔ HasElement params index suits := by
  have equal : fits = suits := funext fun value => propext (same value)
  rw [equal]

/-! ## Handlers -/

/-- An optional text is read when it is typed. -/
theorem succeeds_optionalText_iff (params : Json) (index : Nat) :
    Succeeds (optionalText params index) ↔ OptionalTyped params index := by
  rw [optionalText, OptionalTyped]
  split
  · rename_i present
    rw [succeeds_element_iff]
    constructor
    · intro readable _
      exact (HasElement.congr succeeds_pointerText_iff).mp readable
    · intro typed
      exact (HasElement.congr succeeds_pointerText_iff).mpr (typed present)
  · rename_i missing
    exact ⟨fun _ present => absurd present missing, fun _ => succeeds_pure _⟩

/-- A subscription succeeds when its parameters are typed. -/
theorem succeeds_clientSubscribe_iff (params : Json) :
    Succeeds (clientSubscribe params) ↔ SubscribeTyped params := by
  rw [clientSubscribe, SubscribeTyped, ← succeeds_optionalText_iff params 0,
    ← succeeds_optionalText_iff params 1]
  refine succeeds_bind_const_iff _ fun version => ?_
  rw [succeeds_bind_pure_iff]

/-- A login succeeds when its parameters are typed. -/
theorem succeeds_clientAuthorize_iff (around : Surroundings) (params : Json) :
    Succeeds (clientAuthorize around params) ↔
      AuthorizeTyped around params := by
  rw [clientAuthorize, AuthorizeTyped]
  split
  · rename_i listed
    exact ⟨fun _ => Or.inl listed, fun _ => succeeds_pure _⟩
  · rename_i fresh
    rw [or_iff_right fresh, ← succeeds_optionalText_iff params 1]
    refine succeeds_bind_const_iff _ fun password => ?_
    split
    · rename_i full
      exact ⟨fun _ => Or.inl full, fun _ => succeeds_pure _⟩
    · rename_i room
      rw [or_iff_right room, ← succeeds_optionalText_iff params 0,
        succeeds_bind_pure_iff]

/-- On an array the test is made, and a pass means that all are strings. -/
theorem validStringParams_array (elements : List Json) (index count : Nat) :
    ∃ valid, validStringParams (.array elements) index count = .ok valid ∧
      (valid = true → ∀ place, index ≤ place → place < index + count →
        (elements[place]?.getD .null).isString = true) := by
  induction count generalizing index with
  | zero =>
      refine ⟨true, rfl, fun _ place above below => ?_⟩
      omega
  | succ count ih =>
      obtain ⟨valid, tested, strings⟩ := ih (index + 1)
      have unfolded :
          validStringParams (.array elements) index (count + 1) =
            if (elements[index]?.getD .null).isString then
              validStringParams (.array elements) (index + 1) count
            else pure false := rfl
      rw [unfolded]
      split
      · rename_i first
        refine ⟨valid, tested, fun passed place above below => ?_⟩
        rcases Nat.eq_or_lt_of_le above with same | later
        · rw [← same]
          exact first
        · exact strings passed place later (by omega)
      · exact ⟨false, rfl, fun passed => Bool.noConfusion passed⟩

/-- The strings are counted in arrays only. -/
theorem not_succeeds_validStringParams {params : Json}
    (other : params.isArray = false) (index : Nat) {count : Nat}
    (positive : 0 < count) :
    ¬ Succeeds (validStringParams params index count) := by
  cases count with
  | zero =>
      exact absurd positive (Nat.lt_irrefl 0)
  | succ count =>
      rw [validStringParams, succeeds_element_iff]
      rintro ⟨elements, same, -⟩
      rw [same] at other
      exact Bool.noConfusion other

/-- The fields of a submission are strings. -/
theorem succeeds_submitFields (elements : List Json) (count : Nat)
    (strings : ∀ place, place ≤ count →
      (elements[place]?.getD .null).isString = true) :
    Succeeds (submitFields (.array elements) count) := by
  induction count with
  | zero =>
      exact succeeds_pure _
  | succ count ih =>
      obtain ⟨fields, read⟩ := ih fun place below =>
        strings place (Nat.le_succ_of_le below)
      rw [submitFields, succeeds_bind_iff]
      refine ⟨fields, read, ?_⟩
      rw [succeeds_element_iff]
      refine ⟨elements, rfl, ?_⟩
      dsimp only
      rw [succeeds_bind_pure_iff,
        succeeds_readText_iff]
      exact strings (count + 1) (Nat.le_refl _)

/-- A submission checks its strings before it reads them. -/
theorem succeeds_clientSubmit_array (around : Surroundings)
    (elements : List Json) :
    Succeeds (clientSubmit around (.array elements)) := by
  rw [clientSubmit]
  split
  · exact succeeds_pure _
  · rename_i many
    obtain ⟨valid, tested, strings⟩ :=
      validStringParams_array elements 0 (length (.array elements))
    rw [succeeds_bind_iff]
    refine ⟨valid, tested, ?_⟩
    cases valid with
    | false =>
        exact succeeds_pure _
    | true =>
        have all : ∀ place, place < length (.array elements) →
            (elements[place]?.getD .null).isString = true := by
          intro place below
          exact strings rfl place (Nat.zero_le _) (by omega)
        obtain ⟨jobid, read⟩ :=
          (succeeds_readText_iff _).mpr (all 1 (by omega))
        rw [Bool.not_true, if_neg Bool.false_ne_true, succeeds_element_iff]
        refine ⟨elements, rfl, ?_⟩
        dsimp only
        rw [succeeds_bind_iff]
        refine ⟨jobid, read, ?_⟩
        split
        · exact succeeds_pure _
        · rw [succeeds_bind_pure_iff]
          refine succeeds_submitFields elements _
            fun place below => all place ?_
          split at below
          · rename_i six
            rw [Bool.and_eq_true, decide_eq_true_eq] at six
            omega
          · omega

/-- A submission succeeds when its parameters are typed. -/
theorem succeeds_clientSubmit_iff (around : Surroundings) (params : Json) :
    Succeeds (clientSubmit around params) ↔ SubmitTyped params := by
  cases params with
  | array elements =>
      exact ⟨fun _ _ => rfl,
        fun _ => succeeds_clientSubmit_array around elements⟩
  | _ =>
      rw [clientSubmit, SubmitTyped]
      split
      · rename_i few
        exact ⟨fun _ many => absurd many (by omega), fun _ => succeeds_pure _⟩
      · rename_i many
        constructor
        · intro succeeds
          rw [succeeds_bind_iff] at succeeds
          obtain ⟨valid, tested, -⟩ := succeeds
          exact absurd ⟨valid, tested⟩
            (not_succeeds_validStringParams rfl 0 (by omega))
        · intro typed
          exact Bool.noConfusion (typed (by omega))

/-- A suggestion succeeds when its parameters are typed. -/
theorem succeeds_clientSuggestDifficulty_iff (params : Json) :
    Succeeds (clientSuggestDifficulty params) ↔ SuggestTyped params := by
  rw [clientSuggestDifficulty, SuggestTyped]
  split
  · rename_i present
    rw [succeeds_element_iff]
    have read : ∀ value, Succeeds (readDouble value >>= fun difficulty =>
        pure (Outcome.suggestDifficulty (some difficulty))) ↔
        value.isInteger = false := by
      intro value
      rw [succeeds_bind_pure_iff]
      exact succeeds_readDouble_iff value
    rw [HasElement.congr read]
    exact ⟨fun typed _ => typed, fun typed => typed present⟩
  · rename_i missing
    exact ⟨fun _ present => absurd present missing, fun _ => succeeds_pure _⟩

/-- The coin and the hash of an update are read when they are typed. -/
theorem succeeds_updateCoin_iff (around : Surroundings) (params : Json) :
    Succeeds (updateCoin around params) ↔
      HasElement params 1 fun coin =>
        intMember coin ≠ 0 ∧ around.coinListed (intMember coin) = true →
          HasElement params 2 fun hash => hash.isString = true := by
  rw [updateCoin, succeeds_element_iff]
  refine HasElement.congr fun coin => ?_
  have read : ∀ hash, Succeeds (readText hash >>= fun text =>
      pure (Outcome.updateBlock (intMember coin) text)) ↔
      hash.isString = true := by
    intro hash
    rw [succeeds_bind_pure_iff]
    exact succeeds_readText_iff hash
  dsimp only
  split
  · rename_i unknown
    refine ⟨fun _ known => ?_, fun _ => succeeds_pure _⟩
    rcases unknown with zero | missing
    · exact absurd zero known.1
    · rw [known.2] at missing
      exact Bool.noConfusion missing
  · rename_i known
    rw [not_or, Bool.not_eq_false] at known
    rw [succeeds_element_iff, HasElement.congr read]
    exact ⟨fun typed _ => typed, fun typed => typed known⟩

/-- An update succeeds when its parameters are typed. -/
theorem succeeds_clientUpdateBlock_iff (around : Surroundings)
    (params : Json) :
    Succeeds (clientUpdateBlock around params) ↔
      UpdateTyped around params := by
  rw [clientUpdateBlock, UpdateTyped]
  split
  · rename_i few
    exact ⟨fun _ many => absurd many (by omega), fun _ => succeeds_pure _⟩
  · rename_i many
    have password : ∀ value, Succeeds (pointerText value >>= fun password =>
        if password = some around.tcpPassword then updateCoin around params
        else pure .badUpdate) ↔
        value.isContainer = false ∧
          (value.stringValue = some around.tcpPassword →
            Succeeds (updateCoin around params)) := by
      intro value
      rw [succeeds_bind_iff]
      constructor
      · rintro ⟨text, read, succeeds⟩
        have plain := (succeeds_pointerText_iff value).mp ⟨text, read⟩
        rw [pointerText_eq plain] at read
        refine ⟨plain, fun same => ?_⟩
        rw [← Except.ok.inj read, if_pos same] at succeeds
        exact succeeds
      · rintro ⟨plain, typed⟩
        refine ⟨value.stringValue, pointerText_eq plain, ?_⟩
        split
        · rename_i same
          exact typed same
        · exact succeeds_pure _
    simp only [← succeeds_updateCoin_iff]
    rw [succeeds_element_iff, HasElement.congr password]
    exact ⟨fun typed _ => typed, fun typed => typed (by omega)⟩

/-! ## The thread -/

/-- Each method succeeds when its own parameters are typed. -/
theorem succeeds_dispatch_iff (around : Surroundings) (method : CString)
    (params : Json) :
    Succeeds (dispatch around method params) ↔
      ParamsTyped around method params := by
  rw [dispatch, ParamsTyped, ← succeeds_clientSubscribe_iff,
    ← succeeds_clientAuthorize_iff, ← succeeds_clientSubmit_iff around,
    ← succeeds_clientSuggestDifficulty_iff, ← succeeds_clientUpdateBlock_iff]
  split_ifs with subscribe authorize submit suggest update
  · simp [subscribe]
  · simp [authorize]
  · simp [submit]
  · simp [suggest]
  · simp [update]
  · exact ⟨fun _ => ⟨(absurd · subscribe), (absurd · authorize),
      (absurd · submit), (absurd · suggest), (absurd · update)⟩,
      fun _ => succeeds_pure _⟩

/-- A member is found with a pointer when it is a string or a container. -/
theorem pointerOf_eq_some_iff (members : List (CString × Json))
    (key : CString) (value : Json) :
    pointerOf members key = some value ↔
      Json.lookup members key = some value ∧
        (value.isString = true ∨ value.isContainer = true) := by
  rw [pointerOf, Option.filter_eq_some_iff, Bool.or_eq_true]

theorem isString_iff (value : Json) :
    value.isString = true ↔ ∃ text, value.stringValue = some text := by
  cases value with
  | string text =>
      exact ⟨fun _ => ⟨textOf text, rfl⟩, fun _ => rfl⟩
  | _ =>
      refine ⟨fun bad => Bool.noConfusion bad, ?_⟩
      rintro ⟨text, bad⟩
      cases bad

/-- The text that is read is that of the string. -/
theorem readText_eq_ok_iff (value : Json) (text : CString) :
    readText value = .ok text ↔ value.stringValue = some text := by
  cases value with
  | string stored =>
      rw [readText, Json.stringValue, Except.ok.injEq, Option.some.injEq]
  | _ =>
      constructor
      · intro bad
        cases bad
      · intro bad
        cases bad

theorem not_isContainer_of_isString {value : Json}
    (string : value.isString = true) : value.isContainer = false := by
  cases value with
  | string text => rfl
  | _ => exact Bool.noConfusion string

/-- A request is served when its method and its parameters are typed. -/
theorem succeeds_serveMethod_iff (around : Surroundings)
    (members : List (CString × Json)) :
    Succeeds (serveMethod around members) ↔
      ∀ method params, Json.lookup members "method".toList = some method →
        Json.lookup members "params".toList = some params →
          method.isContainer = false ∧
            ∀ name, method.stringValue = some name →
              ParamsTyped around name params := by
  rw [serveMethod]
  cases pointer : pointerOf members "method".toList with
  | none =>
      constructor
      · intro _ method params found _
        have plain : method.isString = false ∧ method.isContainer = false := by
          by_contra typed
          rw [not_and_or, Bool.not_eq_false, Bool.not_eq_false] at typed
          have points := (pointerOf_eq_some_iff members _ method).mpr
            ⟨found, typed⟩
          rw [pointer] at points
          exact absurd points.symm (Option.some_ne_none method)
        refine ⟨plain.2, fun name read => ?_⟩
        have string := (isString_iff method).mpr ⟨name, read⟩
        rw [plain.1] at string
        exact Bool.noConfusion string
      · intro _
        dsimp only
        split
        · exact succeeds_pure _
        · exact succeeds_pure _
  | some method =>
      obtain ⟨found, -⟩ := (pointerOf_eq_some_iff members _ method).mp pointer
      dsimp only
      cases listed : Json.lookup members "params".toList with
      | none =>
          refine ⟨fun _ other params _ present => ?_, fun _ => succeeds_pure _⟩
          exact absurd present.symm (Option.some_ne_none params)
      | some params =>
          dsimp only
          rw [succeeds_bind_iff]
          constructor
          · rintro ⟨name, read, succeeds⟩ other given same present
            rw [found] at same
            rw [← Option.some.inj same, ← Option.some.inj present]
            rw [readText_eq_ok_iff] at read
            have string := (isString_iff method).mpr ⟨name, read⟩
            refine ⟨not_isContainer_of_isString string, fun text value => ?_⟩
            rw [read] at value
            rw [← Option.some.inj value]
            exact (succeeds_dispatch_iff around name params).mp succeeds
          · intro typed
            obtain ⟨plain, demand⟩ := typed method params found rfl
            obtain ⟨-, string | container⟩ :=
              (pointerOf_eq_some_iff members _ method).mp pointer
            · obtain ⟨name, read⟩ := (isString_iff method).mp string
              refine ⟨name, (readText_eq_ok_iff method name).mpr read, ?_⟩
              exact (succeeds_dispatch_iff around name params).mpr
                (demand name read)
            · rw [plain] at container
              exact Bool.noConfusion container

/-- The length of the number is read of no array or object. -/
theorem succeeds_idLength_iff (members : List (CString × Json)) :
    Succeeds (idLength members) ↔
      ∀ id, Json.lookup members "id".toList = some id →
        id.isContainer = false := by
  rw [idLength]
  cases pointer : pointerOf members "id".toList with
  | none =>
      refine ⟨fun _ id found => ?_, fun _ => succeeds_pure _⟩
      by_contra container
      rw [Bool.not_eq_false] at container
      have points := (pointerOf_eq_some_iff members _ id).mpr
        ⟨found, Or.inr container⟩
      rw [pointer] at points
      exact absurd points.symm (Option.some_ne_none id)
  | some id =>
      obtain ⟨found, typed⟩ := (pointerOf_eq_some_iff members _ id).mp pointer
      dsimp only
      rw [succeeds_bind_pure_iff,
        succeeds_readText_iff]
      constructor
      · intro string other same
        rw [found] at same
        rw [← Option.some.inj same]
        exact not_isContainer_of_isString string
      · intro plain
        rcases typed with string | container
        · exact string
        · rw [plain id found] at container
          exact Bool.noConfusion container

/-- The identifier is too long exactly when its length is found to be. -/
theorem longId_iff (members : List (CString × Json)) {length : Nat}
    (read : idLength members = .ok length) :
    LongId members ↔ 32 < length := by
  rw [idLength] at read
  cases pointer : pointerOf members "id".toList with
  | none =>
      rw [pointer] at read
      have zero : 0 = length := Except.ok.inj read
      rw [← zero]
      refine ⟨?_, fun bad => absurd bad (Nat.not_lt_zero _)⟩
      rintro ⟨id, text, found, value, -⟩
      have points := (pointerOf_eq_some_iff members _ id).mpr
        ⟨found, Or.inl ((isString_iff id).mpr ⟨text, value⟩)⟩
      rw [pointer] at points
      exact absurd points.symm (Option.some_ne_none id)
  | some id =>
      obtain ⟨found, -⟩ := (pointerOf_eq_some_iff members _ id).mp pointer
      rw [pointer] at read
      dsimp only at read
      cases text : readText id with
      | error violation =>
          rw [text] at read
          cases read
      | ok stored =>
          rw [text] at read
          have same : stored.length = length := Except.ok.inj read
          rw [readText_eq_ok_iff] at text
          rw [← same]
          constructor
          · rintro ⟨other, value, present, string, long⟩
            rw [found] at present
            rw [← Option.some.inj present, text] at string
            rw [Option.some.inj string]
            exact long
          · intro long
            exact ⟨id, stored, found, text, long⟩

/--
A request is served without a read of the wrong type exactly when it is typed
as the code that it reaches expects.
-/
theorem clientThread_typeSafe_iff (around : Surroundings)
    (members : List (CString × Json)) :
    Succeeds (clientThread around members) ↔ RequestTyped around members := by
  rw [clientThread, RequestTyped, ← succeeds_idLength_iff,
    ← succeeds_serveMethod_iff, succeeds_bind_iff]
  constructor
  · rintro ⟨length, read, succeeds⟩
    refine ⟨⟨length, read⟩, ?_⟩
    split at succeeds
    · rename_i long
      exact Or.inl ((longId_iff members read).mpr long)
    · exact Or.inr succeeds
  · rintro ⟨⟨length, read⟩, typed⟩
    refine ⟨length, read, ?_⟩
    split
    · exact succeeds_pure _
    · rename_i short
      rcases typed with long | succeeds
      · exact absurd ((longId_iff members read).mp long) short
      · exact succeeds

/-! ## A failing request -/

/-- A server without anything to compare with. -/
def emptyServer : Surroundings where
  stats := false
  reqid := 0
  equihash := false
  listed := false
  full := false
  tcpPassword := []
  coinListed := fun _ => false

/-- A request for the difficulty 64. -/
def suggestRequest : List (CString × Json) :=
  [("id".toList, .integer 1),
    ("method".toList, .string "mining.suggest_difficulty".toList),
    ("params".toList, .array [.integer 64])]

theorem not_typeSafe_suggestRequest :
    ¬ Succeeds (clientThread emptyServer suggestRequest) := by
  have violation : clientThread emptyServer suggestRequest =
      .error (.double (.integer 64)) := rfl
  rw [violation]
  exact not_succeeds_error _

end YiimpStratum.Dispatch
