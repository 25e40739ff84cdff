import YiimpStratum.Library.Run
import YiimpStratum.Parse.Layout

/-!
# Iterations in a row

The states in which a pass can be, by their flags, and what several iterations
lead to.
-/

namespace YiimpStratum.Parse

open YiimpStratum
open YiimpStratum.Util
open YiimpStratum.Rounds

/-! ## States -/

/-- Outside of strings, in front of the end of the value. -/
def outside (values : List JsonValue) (top : Option Nat) (alloc : Nat)
    (seek comma colon : Bool) (scratch : Scratch) : State where
  values := values
  top := top
  alloc := alloc
  needComma := comma
  seekValue := seek
  escaped := false
  string := false
  needColon := colon
  done := false
  scratch := scratch

/-- Inside a string. -/
def inside (values : List JsonValue) (top : Option Nat) (alloc : Nat)
    (escaped : Bool) (scratch : Scratch) : State where
  values := values
  top := top
  alloc := alloc
  needComma := false
  seekValue := false
  escaped := escaped
  string := true
  needColon := false
  done := false
  scratch := scratch

/-- Behind the value. -/
def behind (values : List JsonValue) (top : Nat) (alloc : Nat)
    (scratch : Scratch) : State where
  values := values
  top := some top
  alloc := alloc
  needComma := true
  seekValue := false
  escaped := false
  string := false
  needColon := false
  done := true
  scratch := scratch

/-- A value of which the last character has been read. -/
abbrev complete (values : List JsonValue) (top alloc : Nat)
    (scratch : Scratch) : State :=
  outside values (some top) alloc false false false scratch

/-- The scratch variables between two values. -/
@[simp]
theorem scratch_outside (values : List JsonValue) (top : Option Nat)
    (alloc : Nat) (seek comma colon : Bool) (scratch : Scratch) :
    (outside values top alloc seek comma colon scratch).scratch =
      scratch := by
  rfl

/-- The scratch variables in a string. -/
@[simp]
theorem scratch_inside (values : List JsonValue) (top : Option Nat)
    (alloc : Nat) (escaped : Bool) (scratch : Scratch) :
    (inside values top alloc escaped scratch).scratch = scratch :=
  rfl

/-- A string that is left. -/
theorem inside_closed (values : List JsonValue) (top : Option Nat)
    (alloc : Nat) (scratch : Scratch) :
    { inside values top alloc false scratch with string := false } =
      outside values top alloc false false false scratch := by
  rfl

/-! ## Several iterations -/

/-- Iterations that go on, and the outcome of the last one. -/
inductive Leads (doubles : Doubles) (firstPass : Bool) :
    State → List Char → Iteration → Prop where
  | last {s : State} {i : List Char} {outcome : Iteration}
      (iteration : step doubles firstPass s i = outcome) :
      Leads doubles firstPass s i outcome
  | more {s s' : State} {i i' : List Char} {outcome : Iteration}
      (iteration : step doubles firstPass s i = .next s' i')
      (later : Leads doubles firstPass s' i' outcome) :
      Leads doubles firstPass s i outcome

namespace Leads

variable {doubles : Doubles} {firstPass : Bool}

/-- Iterations are put one behind the other. -/
theorem trans {s s' : State} {i i' : List Char} {outcome : Iteration}
    (leads : Leads doubles firstPass s i (.next s' i'))
    (later : Leads doubles firstPass s' i' outcome) :
    Leads doubles firstPass s i outcome := by
  generalize reached : Iteration.next s' i' = middle at leads
  induction leads with
  | last iteration =>
      exact .more (iteration.trans reached.symm) later
  | more iteration _ ih =>
      exact .more iteration (ih reached)

/-- The loop ends as the last iteration says. -/
theorem returns {s : State} {i : List Char} {ending : Ending}
    (leads : Leads doubles firstPass s i (.stop ending)) :
    Returns (fun rounds => pass doubles firstPass rounds s i) ending := by
  generalize stopped : Iteration.stop ending = outcome at leads
  induction leads with
  | last iteration =>
      refine ⟨1, fun rounds enough => ?_⟩
      obtain ⟨left, rfl⟩ := Nat.exists_eq_add_of_le' enough
      simp only [pass, iteration, ← stopped]
  | more iteration _ ih =>
      exact (ih stopped).step fun rounds => by simp only [pass, iteration]

end Leads

/-! ## Values in a list -/

theorem getElem?_middle {α : Type} (before : List α) (x : α)
    (behind : List α) : (before ++ x :: behind)[before.length]? = some x := by
  simp

theorem set_middle {α : Type} (before : List α) (x y : α)
    (behind : List α) :
    (before ++ x :: behind).set before.length y = before ++ y :: behind := by
  simp

theorem modify_middle {α : Type} (before : List α) (x : α) (behind : List α)
    (f : α → α) :
    (before ++ x :: behind).modify before.length f =
      before ++ f x :: behind := by
  induction before with
  | nil => rfl
  | cons first before ih =>
      rw [List.cons_append, List.length_cons, List.modify_succ_cons, ih]
      rfl

/-- A value laid out, with the values inside it behind it. -/
theorem layout_eq_cons (data : Nat → Json → JsonData) (parent : Option Nat)
    (base : Nat) (json : Json) :
    ∃ inner, layout data parent base json =
      { parent := parent, data := data base json } :: inner := by
  cases json with
  | array elements => exact ⟨_, by rw [layout]⟩
  | object members => exact ⟨_, by rw [layout]⟩
  | integer value => exact ⟨[], by rw [layout] <;> simp⟩
  | double value => exact ⟨[], by rw [layout] <;> simp⟩
  | string text => exact ⟨[], by rw [layout] <;> simp⟩
  | boolean value => exact ⟨[], by rw [layout] <;> simp⟩
  | null => exact ⟨[], by rw [layout] <;> simp⟩

section States

variable (before : List JsonValue) (parent : Option Nat) (data : JsonData)
variable (later : List JsonValue) (alloc : Nat) (scratch : Scratch)

/-- The open value is the one that is pointed to. -/
@[simp]
theorem topValue_outside (seek comma colon : Bool) :
    (outside (before ++ ⟨parent, data⟩ :: later) (some before.length) alloc
      seek comma colon scratch).topValue = some ⟨parent, data⟩ :=
  getElem?_middle _ _ _

/-- A store to the open value changes it in its place. -/
@[simp]
theorem setTop_outside (seek comma colon : Bool) (other : JsonData) :
    (outside (before ++ ⟨parent, data⟩ :: later) (some before.length) alloc
      seek comma colon scratch).setTop other =
      outside (before ++ ⟨parent, other⟩ :: later) (some before.length)
        alloc seek comma colon scratch := by
  simp only [State.setTop, outside, modify_middle]

@[simp]
theorem topValue_inside (escaped : Bool) :
    (inside (before ++ ⟨parent, data⟩ :: later) (some before.length) alloc
      escaped scratch).topValue = some ⟨parent, data⟩ :=
  getElem?_middle _ _ _

@[simp]
theorem setTop_inside (escaped : Bool) (other : JsonData) :
    (inside (before ++ ⟨parent, data⟩ :: later) (some before.length) alloc
      escaped scratch).setTop other =
      inside (before ++ ⟨parent, other⟩ :: later) (some before.length) alloc
        escaped scratch := by
  simp only [State.setTop, inside, modify_middle]

end States

/-! ## The end of an element -/

section Elements

variable {firstPass : Bool}

/-- The end of an element or a member counts it in its parent. -/
theorem finish_child (before kids later : List JsonValue)
    (parent : Option Nat) (child : JsonData) (alloc : Nat) (z : Scratch)
    (i : List Char) {data linked : JsonData}
    (links :
      (if firstPass then some data
        else data.link (before.length + (kids.length + 1))) = some linked)
    (bounded : linked.countUp.length ≤ uintMax) :
    finish firstPass
        (complete
          (before ++ ⟨parent, data⟩ ::
            (kids ++ ⟨some before.length, child⟩ :: later))
          (before.length + (kids.length + 1)) alloc z) i =
      .next
        (outside
          (before ++ ⟨parent, linked.countUp⟩ ::
            (kids ++ ⟨some before.length, child⟩ :: later))
          (some before.length) alloc data.isArray true false z) i := by
  have own :
      (before ++ ⟨parent, data⟩ ::
        (kids ++ ⟨some before.length, child⟩ :: later))[
          before.length + (kids.length + 1)]? =
        some ⟨some before.length, child⟩ := by
    simp
  simp only [finish, outside, State.topValue, own, getElem?_middle, links,
    Nat.not_lt.mpr bounded, set_middle, if_false, Bool.false_or]

end Elements

/-! ## Blanks -/

section Blanks

variable {doubles : Doubles} {firstPass : Bool}
variable {values : List JsonValue} {top : Option Nat} {alloc : Nat}
variable {comma colon : Bool} {scratch : Scratch}

/-- A blank is skipped. -/
theorem step_blank {b : Char} (isBlank : isWhitespace b = true)
    (i : List Char) :
    step doubles firstPass
      (outside values top alloc true comma colon scratch) (b :: i) =
        .next (outside values top alloc true comma colon scratch) i := by
  simp [step, outside, seek, isBlank, proceed]

/-- Blanks are skipped up to the next character. -/
theorem leads_blanks {i rest : List Char} (blanks : Blanks i rest)
    {outcome : Iteration}
    (later :
      Leads doubles firstPass
        (outside values top alloc true comma colon scratch) rest outcome) :
    Leads doubles firstPass
      (outside values top alloc true comma colon scratch) i outcome := by
  induction blanks with
  | none i => exact later
  | blank isBlank _ ih => exact .more (step_blank isBlank _) (ih later)

/-- A comma that is due is taken. -/
theorem step_comma (i : List Char) :
    step doubles firstPass
      (outside values top alloc true true colon scratch) (',' :: i) =
        .next (outside values top alloc true false colon scratch) i := by
  simp [step, outside, seek, isWhitespace, proceed]

/-- A colon that is due is taken. -/
theorem step_colon (i : List Char) :
    step doubles firstPass
      (outside values top alloc true false true scratch) (':' :: i) =
        .next (outside values top alloc true false false scratch) i := by
  simp [step, outside, seek, isWhitespace, proceed]

/-- Behind the value only blanks are read, up to the end. -/
theorem leads_trailing {i : List Char} (trailing : Trailing i) (address : Nat) :
    Leads doubles firstPass (behind values address alloc scratch) i
      (.stop (.ended (behind values address alloc scratch))) := by
  induction trailing with
  | nil => exact .last (by simp [step, behind])
  | terminated i => exact .last (by simp [step, behind])
  | @blank b isBlank i more ih =>
      have visible : b ≠ terminator := by
        rintro rfl
        exact absurd isBlank (by decide)
      exact .more (by simp [step, behind, visible, isBlank, proceed]) ih

end Blanks

/-! ## Digits -/

section Digits

variable {doubles : Doubles} {firstPass : Bool}

theorem isDigit_ne {b c : Char} (isDigit : b.isDigit = true)
    (noDigit : c.isDigit = false) : b ≠ c := by
  rintro rfl
  exact absurd isDigit (by simp [noDigit])

/-- A digit begins a number. -/
theorem beginValue_digit {b : Char} (isDigit : b.isDigit = true) (s : State)
    (i : List Char) :
    beginValue firstPass s (b :: i) = beginNumber firstPass s b i := by
  unfold beginValue
  split
  case h_7 c rest _ _ _ _ _ _ shape =>
      obtain ⟨rfl, rfl⟩ := List.cons.inj shape
      simp only [isDigit, true_or, if_true]
  case h_8 shape =>
      exact absurd shape (List.cons_ne_nil b i)
  all_goals
    rename_i shape
    exact absurd (List.cons.inj shape).1 (isDigit_ne isDigit (by decide))

theorem step_begin_digit {b : Char} (isDigit : b.isDigit = true)
    (values : List JsonValue) (top : Option Nat) (alloc : Nat) (z : Scratch)
    (i : List Char) :
    step doubles firstPass (outside values top alloc true false false z)
        (b :: i) =
      beginNumber firstPass (outside values top alloc false false false z) b
        i := by
  have notClose : b ≠ ']' := isDigit_ne isDigit (by decide)
  have notBlank : isWhitespace b = false := by
    simp [isWhitespace, isDigit_ne isDigit (c := ' ') (by decide),
      isDigit_ne isDigit (c := '\t') (by decide),
      isDigit_ne isDigit (c := '\r') (by decide),
      isDigit_ne isDigit (c := '\n') (by decide)]
  simp only [step, outside, seek, List.headD_cons, notBlank, notClose,
    Bool.false_eq_true, if_false, if_true]
  exact beginValue_digit isDigit _ i

theorem step_begin_minus (values : List JsonValue) (top : Option Nat)
    (alloc : Nat) (z : Scratch) (i : List Char) :
    step doubles firstPass (outside values top alloc true false false z)
        ('-' :: i) =
      beginNumber firstPass (outside values top alloc false false false z) '-'
        i := by
  simp [step, outside, seek, isWhitespace, beginValue]

end Digits

/-! ## Brackets -/

section Brackets

variable {doubles : Doubles} {firstPass : Bool}
variable (before kids : List JsonValue) (parent : Option Nat) (o : JsonObject)
variable (a : JsonArray) (alloc : Nat) (comma : Bool) (z : Scratch)
variable (i : List Char)

/-- A state whose top value is an object, between its members. -/
abbrev between : State :=
  outside (before ++ ⟨parent, .object o⟩ :: kids) (some before.length) alloc
    false comma false z

theorem step_between (i : List Char) :
    step doubles firstPass (between before kids parent o alloc comma z) i =
      inObject firstPass (between before kids parent o alloc comma z) o
        (i.headD terminator) i := by
  rw [step, topValue_outside]
  rfl

/-- A blank between two members is skipped. -/
theorem step_between_blank {b : Char} (isBlank : isWhitespace b = true) :
    step doubles firstPass (between before kids parent o alloc comma z)
        (b :: i) =
      .next (between before kids parent o alloc comma z) i := by
  rw [step_between]
  simp [inObject, isBlank, proceed]

/-- A comma between two members is taken. -/
theorem step_between_comma :
    step doubles firstPass (between before kids parent o alloc true z)
        (',' :: i) =
      .next (between before kids parent o alloc false z) i := by
  rw [step_between]
  simp [inObject, isWhitespace, proceed, outside]

/-- A quote between two members opens a name. -/
theorem step_between_quote :
    step doubles firstPass (between before kids parent o alloc false z)
        ('"' :: i) =
      .next
        (inside (before ++ ⟨parent, .object o⟩ :: kids) (some before.length)
          alloc false { z with string := o.objectMem, stringLength := 0 })
        i := by
  rw [step_between]
  simp [inObject, isWhitespace, proceed, outside, inside]

/-- The closing brace finishes the object. -/
theorem step_between_close :
    step doubles firstPass (between before kids parent o alloc comma z)
        ('}' :: i) =
      finish firstPass
        (complete (before ++ ⟨parent, .object o⟩ :: kids) before.length alloc
          z) i := by
  rw [step_between]
  simp [inObject, isWhitespace, outside]

/-- The closing bracket finishes the array. -/
theorem step_close_array :
    step doubles firstPass
        (outside (before ++ ⟨parent, .array a⟩ :: kids) (some before.length)
          alloc true comma false z) (']' :: i) =
      finish firstPass
        (complete (before ++ ⟨parent, .array a⟩ :: kids) before.length alloc
          z) i := by
  simp [step, seek, isWhitespace, outside, State.topValue,
    JsonData.isArray]

end Brackets

/-! ## Strings -/

section Strings

variable {doubles : Doubles} {firstPass : Bool}
variable {values : List JsonValue} {top : Option Nat} {alloc : Nat}
variable {z : Scratch} (short : z.stringLength ≤ uintMax)
include short

/-- A plain character of a string is added. -/
theorem step_plain {b : Char} (visible : b ≠ terminator) (unescaped : b ≠ '\\')
    (unquoted : b ≠ '"') (i : List Char) :
    step doubles firstPass (inside values top alloc false z) (b :: i) =
      addBytes firstPass [b] (inside values top alloc false z) i := by
  simp [step, inside, inString, visible, unescaped, unquoted,
    Nat.not_lt.mpr short]

/-- A backslash escapes the next character. -/
theorem step_backslash (i : List Char) :
    step doubles firstPass (inside values top alloc false z) ('\\' :: i) =
      .next (inside values top alloc true z) i := by
  simp [step, inside, inString, terminator, Nat.not_lt.mpr short, proceed]

/-- An escaped character is added as it is meant. -/
theorem step_escaped {b : Char} (visible : b ≠ terminator) (other : b ≠ 'u')
    (i : List Char) :
    step doubles firstPass (inside values top alloc true z) (b :: i) =
      addBytes firstPass [unescape b] (inside values top alloc false z) i := by
  simp [step, inside, inString, visible, other, Nat.not_lt.mpr short]

/-- The bytes of a `\u` are added. -/
theorem step_unicode {digits i : List Char} {code : Nat}
    (read : readUnicode digits = some (code, i)) :
    step doubles firstPass (inside values top alloc true z) ('u' :: digits) =
      addBytes firstPass (encode code) (inside values top alloc false z)
        i := by
  simp [step, inside, inString, terminator, read, Nat.not_lt.mpr short]

/-- The closing quote leaves the string. -/
theorem step_quote (i : List Char) :
    step doubles firstPass (inside values top alloc false z) ('"' :: i) =
      closeString firstPass (inside values top alloc false z) i := by
  simp [step, inside, inString, terminator, Nat.not_lt.mpr short]

end Strings

end YiimpStratum.Parse
