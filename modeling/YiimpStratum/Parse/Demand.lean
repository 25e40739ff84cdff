import YiimpStratum.Parse.Measure

/-!
# What a state of the first pass demands of the text

In every state of the first pass the values that are still open form a stack,
and the rest of the text is accepted only when it closes all of them.  One
iteration keeps this, gets nearer to the end and is never a fault, so that the
first pass ends on every text and what it accepts is the text of a value.
-/

namespace YiimpStratum.Parse

open YiimpStratum
open YiimpStratum.Util

/-! ## The values that are open -/

/-- The values that have values inside them. -/
inductive Frame where
  | array
  | object

/-- What kind of frame the data of a value make. -/
def JsonData.frame : JsonData → Option Frame
  | .array _ => some .array
  | .object _ => some .object
  | _ => none

/-- The chain of the parents of a value, from the inside to the outside. -/
inductive Stack (values : List JsonValue) :
    Option Nat → List Frame → Prop where
  | root : Stack values none []
  | enter {address : Nat} {value : JsonValue} {frame : Frame}
      {frames : List Frame} (found : values[address]? = some value)
      (kind : value.data.frame = some frame)
      (outer : Stack values value.parent frames) :
      Stack values (some address) (frame :: frames)

/-- The values with values inside them are still there, below their parents. -/
def Keeps (values values' : List JsonValue) : Prop :=
  ∀ (address : Nat) (value : JsonValue) (frame : Frame),
    values[address]? = some value → value.data.frame = some frame →
      ∃ value' : JsonValue, values'[address]? = some value' ∧
        value'.data.frame = some frame ∧ value'.parent = value.parent

theorem Stack.keep {values values' : List JsonValue} {top : Option Nat}
    {frames : List Frame} (stack : Stack values top frames)
    (keeps : Keeps values values') : Stack values' top frames := by
  induction stack with
  | root => exact .root
  | enter found kind _ ih =>
      obtain ⟨value', found', kind', parent⟩ := keeps _ _ _ found kind
      exact .enter found' kind' (parent ▸ ih)

theorem keeps_append (values : List JsonValue) (value : JsonValue) :
    Keeps values (values ++ [value]) := by
  intro address old frame found kind
  refine ⟨old, ?_, kind, rfl⟩
  rw [List.getElem?_append_left (List.getElem?_eq_some_iff.mp found).1]
  exact found

/-- Data replaced by data that make the same frame, or that made none. -/
theorem keeps_replaced {values values' : List JsonValue} {address : Nat}
    {value : JsonValue} {data : JsonData}
    (found : values[address]? = some value)
    (replaced : values'[address]? = some { value with data := data })
    (others : ∀ other, other ≠ address → values'[other]? = values[other]?)
    (same : ∀ frame, value.data.frame = some frame →
      data.frame = some frame) :
    Keeps values values' := by
  intro other old frame found' kind
  by_cases here : other = address
  · subst here
    obtain rfl := Option.some.inj (found.symm.trans found')
    exact ⟨_, replaced, same frame kind, rfl⟩
  · exact ⟨old, (others other here).trans found', kind, rfl⟩

theorem getElem?_set_top (values : List JsonValue) {address : Nat}
    {value : JsonValue} (found : values[address]? = some value)
    (value' : JsonValue) :
    (values.set address value')[address]? = some value' := by
  rw [List.getElem?_set_self (List.getElem?_eq_some_iff.mp found).1]

/-- The top value with other data. -/
def replaceTop (values : List JsonValue) (address : Nat) (data : JsonData) :
    List JsonValue :=
  values.modify address fun value => { value with data := data }

theorem getElem?_replaceTop {values : List JsonValue} {address : Nat}
    {parent : Option Nat} {old : JsonData}
    (found : values[address]? = some ⟨parent, old⟩) (data : JsonData) :
    (replaceTop values address data)[address]? = some ⟨parent, data⟩ := by
  simp [replaceTop, found]

theorem keeps_replaceTop {values : List JsonValue} {address : Nat}
    {parent : Option Nat} {old data : JsonData}
    (found : values[address]? = some ⟨parent, old⟩)
    (same : ∀ frame, old.frame = some frame → data.frame = some frame) :
    Keeps values (replaceTop values address data) := by
  refine keeps_replaced found (getElem?_replaceTop found data) ?_ same
  intro other different
  simp [replaceTop, different.symm]

/-! ## What the rest of the text has to be -/

section Demands

variable (doubles : Doubles)

/-- Behind a complete value: the open values are closed one by one. -/
def Closes : List Frame → List Char → Prop
  | [], i => Trailing i
  | .array :: frames, i =>
      ∃ elements rest, Derives doubles (.elements true elements) i rest ∧
        Closes frames rest
  | .object :: frames, i =>
      ∃ members rest, Derives doubles (.members true members) i rest ∧
        Closes frames rest

/-- A phrase in front of what closes the open values. -/
def WantsValue (frames : List Frame) (i : List Char) : Prop :=
  ∃ json rest, Derives doubles (.value json) i rest ∧
    Closes doubles frames rest

def WantsElements (comma : Bool) (frames : List Frame) (i : List Char) :
    Prop :=
  ∃ elements rest, Derives doubles (.elements comma elements) i rest ∧
    Closes doubles frames rest

def WantsMembers (comma : Bool) (frames : List Frame) (i : List Char) :
    Prop :=
  ∃ members rest, Derives doubles (.members comma members) i rest ∧
    Closes doubles frames rest

/-- Behind a name; the frames are those around the object. -/
def WantsColon (frames : List Frame) (i : List Char) : Prop :=
  ∃ colon, Blanks i (':' :: colon) ∧
    WantsValue doubles (.object :: frames) colon

/-- The rest of a string, and what is wanted behind it. -/
def WantsText (wants : List Char → Prop) (i : List Char) : Prop :=
  ∃ bytes rest, Characters i bytes rest ∧ wants rest

/-- The digits in front of the point and what belongs to the number then. -/
def WantsWhole (z : Scratch) (frames : List Frame) (i : List Char) : Prop :=
  ∃ digits fraction exponent rest,
    i = digits ++ (Numeral.fractionText fraction ++
      (Numeral.exponentText exponent ++ rest)) ∧
    IsDigits digits ∧ (z.numZero = true → digits = []) ∧
    (z.numDigits = 0 → ∀ more, digits = '0' :: more → more = []) ∧
    (fraction ≠ none → 0 < z.numDigits + digits.length) ∧
    Closes doubles frames rest

/-- The digits behind the point. -/
def WantsFraction (z : Scratch) (frames : List Frame) (i : List Char) :
    Prop :=
  ∃ digits exponent rest,
    i = digits ++ (Numeral.exponentText exponent ++ rest) ∧
    IsDigits digits ∧ 0 < z.numDigits + digits.length ∧
    Closes doubles frames rest

/-- The sign, unless there can be none any more, and the digits behind it. -/
def WantsExponent (z : Scratch) (frames : List Frame) (i : List Char) :
    Prop :=
  ∃ sign digits rest,
    i = Option.toList sign ++ (digits ++ rest) ∧
    (∀ c ∈ sign, c = '+' ∨ c = '-') ∧ (z.numEGotSign = true → sign = none) ∧
    IsDigits digits ∧ 0 < z.numDigits + digits.length ∧
    Closes doubles frames rest

/-- The states of the first pass and what each demands of the text. -/
inductive Awaits : State → (List Char → Prop) → Prop where
  | trailing (values : List JsonValue) (top : Nat) (z : Scratch) :
      Awaits (behind values top 0 z) Trailing
  | value {values : List JsonValue} {top : Option Nat} {frames : List Frame}
      (stack : Stack values top frames)
      (noArray : ∀ outer, frames ≠ .array :: outer) (z : Scratch) :
      Awaits (outside values top 0 true false false z)
        (WantsValue doubles frames)
  | elements {values : List JsonValue} {top : Nat} {parent : Option Nat}
      {array : JsonArray} {frames : List Frame}
      (found : values[top]? = some ⟨parent, .array array⟩)
      (stack : Stack values parent frames) (comma : Bool) (z : Scratch) :
      Awaits (outside values (some top) 0 true comma false z)
        (WantsElements doubles comma frames)
  | members {values : List JsonValue} {top : Nat} {parent : Option Nat}
      {object : JsonObject} {frames : List Frame}
      (found : values[top]? = some ⟨parent, .object object⟩)
      (stack : Stack values parent frames) (comma : Bool) (z : Scratch) :
      Awaits (outside values (some top) 0 false comma false z)
        (WantsMembers doubles comma frames)
  | colon {values : List JsonValue} {top : Nat} {parent : Option Nat}
      {object : JsonObject} {frames : List Frame}
      (found : values[top]? = some ⟨parent, .object object⟩)
      (stack : Stack values parent frames) (z : Scratch) :
      Awaits (outside values (some top) 0 true false true z)
        (WantsColon doubles frames)
  | string {values : List JsonValue} {top : Nat} {parent : Option Nat}
      {string : JsonString} {frames : List Frame}
      (found : values[top]? = some ⟨parent, .string string⟩)
      (stack : Stack values parent frames) (escaped : Bool) (z : Scratch) :
      Awaits (inside values (some top) 0 escaped z)
        (fun i => WantsText (Closes doubles frames)
          (if escaped then '\\' :: i else i))
  | name {values : List JsonValue} {top : Nat} {parent : Option Nat}
      {object : JsonObject} {frames : List Frame}
      (found : values[top]? = some ⟨parent, .object object⟩)
      (stack : Stack values parent frames) (escaped : Bool) (z : Scratch) :
      Awaits (inside values (some top) 0 escaped z)
        (fun i => WantsText (WantsColon doubles frames)
          (if escaped then '\\' :: i else i))
  | whole {values : List JsonValue} {top : Nat} {parent : Option Nat}
      {number : Int} {frames : List Frame} {z : Scratch}
      (found : values[top]? = some ⟨parent, .integer number⟩)
      (stack : Stack values parent frames) (noE : z.numE = false) :
      Awaits (complete values top 0 z) (WantsWhole doubles z frames)
  | fraction {values : List JsonValue} {top : Nat} {parent : Option Nat}
      {dbl : Double} {frames : List Frame} {z : Scratch}
      (found : values[top]? = some ⟨parent, .double dbl⟩)
      (stack : Stack values parent frames) (noE : z.numE = false) :
      Awaits (complete values top 0 z) (WantsFraction doubles z frames)
  | exponent {values : List JsonValue} {top : Nat} {parent : Option Nat}
      {dbl : Double} {frames : List Frame} {z : Scratch}
      (found : values[top]? = some ⟨parent, .double dbl⟩)
      (stack : Stack values parent frames) (afterE : z.numE = true) :
      Awaits (complete values top 0 z) (WantsExponent doubles z frames)

end Demands

/-! ## Safe iterations -/

/-- How often the same character can still be looked at. -/
def phase (s : State) : Nat :=
  if s.string || s.done || s.needComma || s.needColon then 0
  else if s.seekValue then 2
  else 1

/-- A bound for the number of iterations. -/
def weight (s : State) (i : List Char) : Nat :=
  3 * i.length + phase s

theorem phase_le (s : State) : phase s ≤ 2 := by
  unfold phase
  split
  · omega
  · split <;> omega

/--
An iteration that is no fault, from which fewer than `bound` iterations remain
and which leads to the end only when `accepted`.
-/
def Safe (doubles : Doubles) (bound : Nat) (accepted : Prop) :
    Iteration → Prop
  | .next s i =>
      weight s i < bound ∧
        ∃ demand, Awaits doubles s demand ∧ (demand i → accepted)
  | .stop (.ended _) => accepted
  | .stop (.failed _) => True
  | .stop .fault => False

section Safety

variable {doubles : Doubles} {bound bound' : Nat} {accepted accepted' : Prop}

theorem Safe.mono {iteration : Iteration}
    (safe : Safe doubles bound accepted iteration) (more : bound ≤ bound')
    (implies : accepted → accepted') :
    Safe doubles bound' accepted' iteration := by
  match iteration with
  | .next s i =>
      obtain ⟨fewer, demand, awaits, wants⟩ := safe
      exact ⟨Nat.lt_of_lt_of_le fewer more, demand, awaits,
        fun holds => implies (wants holds)⟩
  | .stop (.ended _) => exact implies safe
  | .stop (.failed _) => trivial
  | .stop .fault => exact safe

/-- A character is passed. -/
theorem safe_next {s : State} {i : List Char} {demand : List Char → Prop}
    (awaits : Awaits doubles s demand) (implies : demand i → accepted)
    (shorter : 3 * i.length + 2 < bound) :
    Safe doubles bound accepted (.next s i) :=
  ⟨Nat.lt_of_le_of_lt (Nat.add_le_add_left (phase_le s) _) shorter, demand,
    awaits, implies⟩

end Safety

end YiimpStratum.Parse
