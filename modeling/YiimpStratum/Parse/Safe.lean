import YiimpStratum.Parse.Demand

/-!
# The first pass on every text

Every iteration of the first pass is safe: by cases on what the state demands,
one lemma for each part of the loop.
-/

namespace YiimpStratum.Parse

open YiimpStratum
open YiimpStratum.Util

variable {doubles : Doubles} {bound : Nat}
variable {values : List JsonValue} {top : Nat} {parent : Option Nat}
variable {frames : List Frame} {z : Scratch}

/-! ## The end of a value -/

/-- A value that is finished leaves the parser in front of what closes. -/
theorem safe_finish {data : JsonData} {i : List Char}
    (found : values[top]? = some ⟨parent, data⟩)
    (stack : Stack values parent frames) (fewer : 3 * i.length < bound) :
    Safe doubles bound (Closes doubles frames i)
      (finish true (complete values top 0 z) i) := by
  cases stack with
  | root =>
      have ended :
          finish true (complete values top 0 z) i =
            .next (behind values top 0 z) i := by
        simp [finish, outside, State.topValue, found, behind]
      rw [ended]
      exact ⟨fewer, Trailing, .trailing values top z, id⟩
  | @enter address value frame frames found' kind outer =>
      have counted :
          finish true (complete values top 0 z) i =
            if uintMax < value.data.countUp.length then
              .stop (.failed
                { complete values top 0 z with
                  values :=
                    values.set address
                      { value with data := value.data.countUp }
                  needComma := true
                  seekValue := value.data.isArray })
            else
              .next
                (outside
                  (values.set address
                    { value with data := value.data.countUp })
                  (some address) 0 value.data.isArray true false z) i := by
        simp [finish, outside, State.topValue, found, found']
      rw [counted]
      split
      · trivial
      · have keeps : Keeps values
            (values.set address { value with data := value.data.countUp }) := by
          refine keeps_replaced found' (getElem?_set_top values found' _) ?_ ?_
          · exact fun other different => List.getElem?_set_ne different.symm
          · intro frame
            cases value.data <;> exact id
        have here :=
          getElem?_set_top values found'
            { value with data := value.data.countUp }
        refine ⟨fewer, ?_⟩
        obtain ⟨parent, data⟩ := value
        cases data with
        | array a =>
            obtain rfl := Option.some.inj kind
            exact ⟨_, .elements here (outer.keep keeps) true z, id⟩
        | object o =>
            obtain rfl := Option.some.inj kind
            exact ⟨_, .members here (outer.keep keeps) true z, id⟩
        | _ => exact absurd kind (by simp [JsonData.frame])

/-! ## The beginning of a value -/

section Begin

variable {within : Option Nat}

/-- A fresh value on top of the open ones. -/
theorem getElem?_fresh (values : List JsonValue) (value : JsonValue) :
    (values ++ [value])[values.length]? = some value := by
  simp

/-- A word with its value. -/
theorem safe_constant {data : JsonData} {i : List Char}
    {accepted : Prop} (stack : Stack values within frames)
    (fewer : 3 * i.length < bound)
    (derives : Closes doubles frames i → accepted) :
    Safe doubles bound accepted
      (finish true
        (complete (values ++ [⟨within, data⟩]) values.length 0 z) i) :=
  (safe_finish (getElem?_fresh values _)
    (stack.keep (keeps_append values _)) fewer).mono (Nat.le_refl _) derives

/-- What closes a value ends a number. -/
theorem Closes.delimited {i : List Char} (closes : Closes doubles frames i) :
    Delimited i := by
  match frames with
  | [] => exact Trailing.delimited closes
  | .array :: frames =>
      obtain ⟨elements, rest, derives, _⟩ := closes
      exact derives.delimited_elements
  | .object :: frames =>
      obtain ⟨members, rest, derives, _⟩ := closes
      exact derives.delimited_members

/-- A digit does not begin an exponent. -/
theorem exponentText_cons {exponent : Option Exponent} {rest : List Char}
    {b : Char} {i : List Char}
    (text : b :: i = Numeral.exponentText exponent ++ rest)
    (isDigit : b.isDigit = true) : exponent = none ∧ rest = b :: i := by
  cases exponent with
  | none => exact ⟨rfl, text.symm⟩
  | some exponent =>
      have mark := (List.cons.inj text).1
      rcases exponent.mark_eq with same | same
      · exact absurd (mark.trans same) (isDigit_ne isDigit (by decide))
      · exact absurd (mark.trans same) (isDigit_ne isDigit (by decide))

/-- A number with what closes it is a value. -/
theorem wantsValue_numeral {i rest : List Char} (numeral : Numeral)
    (text : i = numeral.text ++ rest) (closes : Closes doubles frames rest) :
    WantsValue doubles frames i := by
  rw [text]
  exact ⟨numeral.value doubles, rest, .number numeral rest, closes⟩

/-- A number that begins with a digit has digits. -/
theorem wantsWhole_digit {b : Char} {i : List Char}
    (isDigit : b.isDigit = true)
    (wants : WantsWhole doubles (z.reset false) frames (b :: i)) :
    WantsValue doubles frames (b :: i) := by
  obtain ⟨digits, fraction, exponent, rest, text, isDigits, _, alone, point,
    closes⟩ := wants
  have nonempty : digits ≠ [] := by
    rintro rfl
    cases fraction with
    | some fraction =>
        exact absurd (point (by simp)) (by simp [Scratch.reset])
    | none =>
        obtain ⟨rfl, rfl⟩ := exponentText_cons text isDigit
        have delimited : isNumeric b = false := closes.delimited
        rw [isNumeric_of_isDigit isDigit] at delimited
        exact absurd delimited (by simp)
  exact wantsValue_numeral
    { negative := false
      whole := digits
      isDigits := isDigits
      zero_alone := alone rfl
      fraction := fraction
      exponent := exponent
      whole_ne_nil := Or.inl nonempty }
    (by simp [Numeral.text, text]) closes

/-- A minus begins a number. -/
theorem wantsWhole_minus {i : List Char}
    (wants : WantsWhole doubles (z.reset true) frames i) :
    WantsValue doubles frames ('-' :: i) := by
  obtain ⟨digits, fraction, exponent, rest, text, isDigits, _, alone, point,
    closes⟩ := wants
  have start : digits ≠ [] ∨ true = true ∧ fraction = none := by
    cases fraction with
    | none => exact Or.inr ⟨rfl, rfl⟩
    | some fraction =>
        have positive := point (Option.some_ne_none fraction)
        rw [show (z.reset true).numDigits = 0 from rfl, Nat.zero_add]
          at positive
        exact Or.inl (List.length_pos_iff.mp positive)
  exact wantsValue_numeral
    { negative := true
      whole := digits
      isDigits := isDigits
      zero_alone := alone rfl
      fraction := fraction
      exponent := exponent
      whole_ne_nil := start }
    (by simp [Numeral.text, text]) closes

theorem shorter_cons (b : Char) (i : List Char) :
    3 * i.length + 2 < 3 * (b :: i).length + 2 := by
  rw [List.length_cons]
  omega

/-- The first character of a value. -/
theorem safe_beginValue (stack : Stack values within frames) (i : List Char) :
    Safe doubles (3 * i.length + 2) (WantsValue doubles frames i)
      (beginValue true (outside values within 0 false false false z) i) := by
  have fresh (data : JsonData) :=
    stack.keep (keeps_append values ⟨within, data⟩)
  unfold beginValue
  split
  case h_1 i =>
      refine safe_next
        (.members (getElem?_fresh values ⟨within, newObject⟩) (fresh _) false z)
        ?_ (shorter_cons _ i)
      rintro ⟨members, rest, inside, closes⟩
      exact ⟨_, rest, .object inside, closes⟩
  case h_2 i =>
      refine safe_next
        (.elements (getElem?_fresh values ⟨within, newArray⟩) (fresh _) false z)
        ?_ (shorter_cons _ i)
      rintro ⟨elements, rest, inside, closes⟩
      exact ⟨_, rest, .array inside, closes⟩
  case h_3 i =>
      refine safe_next
        (.string (getElem?_fresh values ⟨within, newString⟩) (fresh _) false
          { z with string := 0, stringLength := 0 }) ?_ (shorter_cons _ i)
      rintro ⟨bytes, rest, characters, closes⟩
      exact ⟨_, rest, .string characters, closes⟩
  case h_4 i =>
      split
      · next i =>
          have stored :
              constantTrue true (outside values within 0 false false false z)
                  i =
                finish true
                  (complete (values ++ [⟨within, .boolean true⟩]) values.length
                    0 z) i :=
            congrArg (finish true · i)
              (setTop_outside values within (.boolean false) [] 0 z false false
                false (.boolean true))
          rw [stored]
          exact safe_constant stack (by simp only [List.length_cons]; omega)
            fun closes => ⟨_, i, .constantTrue i, closes⟩
      · trivial
  case h_5 i =>
      split
      · next i =>
          exact safe_constant stack (by simp only [List.length_cons]; omega)
            fun closes => ⟨_, i, .constantFalse i, closes⟩
      · trivial
  case h_6 i =>
      split
      · next i =>
          exact safe_constant stack (by simp only [List.length_cons]; omega)
            fun closes => ⟨_, i, .null i, closes⟩
      · trivial
  case h_7 b i _ _ _ _ _ _ =>
      split
      · next starts =>
          by_cases minus : b = '-'
          · subst minus
            exact safe_next
              (.whole (z := z.reset true)
                (getElem?_fresh values ⟨within, .integer 0⟩) (fresh _) rfl)
              wantsWhole_minus (shorter_cons _ i)
          · have isDigit : b.isDigit = true := starts.resolve_right minus
            have begun :
                beginNumber true (outside values within 0 false false false z) b
                    i =
                  .next (numbered values within (.integer 0) (z.reset false))
                    (b :: i) := by
              simp [beginNumber, newValue, outside, minus, Scratch.reset]
            rw [begun]
            exact ⟨Nat.lt_succ_self _, _,
              .whole (getElem?_fresh values ⟨within, .integer 0⟩) (fresh _) rfl,
              wantsWhole_digit isDigit⟩
      · trivial
  case h_8 =>
      trivial

end Begin

/-! ## In front of a value, a comma or a colon -/

section Seek

variable {within : Option Nat}

theorem step_seek (comma colon : Bool) (i : List Char) :
    step doubles true (outside values within 0 true comma colon z) i =
      seek true (outside values within 0 true comma colon z)
        (i.headD terminator) i :=
  rfl

/-- A blank may stand in front of a value. -/
theorem WantsValue.blank {b : Char} {i : List Char}
    (isBlank : isWhitespace b = true) (wants : WantsValue doubles frames i) :
    WantsValue doubles frames (b :: i) := by
  obtain ⟨json, rest, derives, closes⟩ := wants
  exact ⟨json, rest, .blank isBlank derives, closes⟩

/-- Where a value has to stand. -/
theorem safe_seekValue (stack : Stack values within frames)
    (noArray : ∀ outer, frames ≠ .array :: outer) (i : List Char) :
    Safe doubles (3 * i.length + 2) (WantsValue doubles frames i)
      (step doubles true (outside values within 0 true false false z) i) := by
  rw [step_seek]
  cases i with
  | nil => exact safe_beginValue stack []
  | cons b i =>
      unfold seek
      split
      · next isBlank =>
          exact safe_next (.value stack noArray z) (WantsValue.blank isBlank)
            (shorter_cons b i)
      · split
        · cases stack with
          | root => trivial
          | @enter address value frame frames found kind outer =>
              have noElement : value.data.isArray = false := by
                cases shape : value.data with
                | array a =>
                    rw [shape] at kind
                    obtain rfl := Option.some.inj kind
                    exact absurd rfl (noArray frames)
                | _ => rfl
              simp [outside, State.topValue, found, noElement, Safe]
        · exact safe_beginValue stack (b :: i)

theorem shorter_next (b : Char) (i : List Char) :
    3 * i.length + 2 < 3 * (b :: i).length := by
  rw [List.length_cons]
  omega

section Elements

variable {array : JsonArray}
variable (found : values[top]? = some ⟨parent, .array array⟩)
variable (stack : Stack values parent frames)
include found stack

/-- The closing bracket of an array is safe. -/
theorem safe_closeArray (comma : Bool) (i : List Char)
    (fewer : 3 * i.length < bound) :
    Safe doubles bound (WantsElements doubles comma frames (']' :: i))
      (step doubles true (outside values (some top) 0 true comma false z)
        (']' :: i)) := by
  have ended :
      step doubles true (outside values (some top) 0 true comma false z)
          (']' :: i) =
        finish true (complete values top 0 z) i := by
    simp [step, seek, isWhitespace, outside, State.topValue, found,
      JsonData.isArray]
  rw [ended]
  exact (safe_finish found stack fewer).mono (Nat.le_refl _) fun closes =>
    ⟨[], i, .noElements comma i, closes⟩

/-- Behind an element of an array. -/
theorem safe_elementComma (i : List Char) :
    Safe doubles (3 * i.length) (WantsElements doubles true frames i)
      (step doubles true (outside values (some top) 0 true true false z)
        i) := by
  cases i with
  | nil => trivial
  | cons b i =>
      by_cases close : b = ']'
      · subst close
        exact safe_closeArray found stack true i
          (by rw [List.length_cons]; omega)
      · rw [step_seek]
        unfold seek
        split
        · next isBlank =>
            refine safe_next (.elements found stack true z)
              ?_ (shorter_next b i)
            rintro ⟨elements, rest, derives, closes⟩
            exact ⟨elements, rest, .blank isBlank derives, closes⟩
        · have needs :
              (outside values (some top) 0 true true false z).needComma =
                true := rfl
          rw [List.headD_cons, if_neg close, if_pos needs]
          split
          · next isComma =>
              subst isComma
              refine safe_next (.elements found stack false z)
                ?_ (shorter_next ',' i)
              rintro ⟨elements, rest, derives, closes⟩
              exact ⟨elements, rest, .elementComma derives, closes⟩
          · trivial

/-- Where an element or the end of an array has to stand. -/
theorem safe_element (i : List Char) :
    Safe doubles (3 * i.length + 2) (WantsElements doubles false frames i)
      (step doubles true (outside values (some top) 0 true false false z)
        i) := by
  have inner : Stack values (some top) (.array :: frames) :=
    .enter found rfl stack
  have element {i : List Char}
      (wants : WantsValue doubles (.array :: frames) i) :
      WantsElements doubles false frames i := by
    obtain ⟨json, middle, first, elements, rest, more, closes⟩ := wants
    exact ⟨json :: elements, rest, .element first more, closes⟩
  cases i with
  | nil => exact (safe_beginValue inner []).mono (Nat.le_refl _) element
  | cons b i =>
      by_cases close : b = ']'
      · subst close
        exact safe_closeArray found stack false i
          (by rw [List.length_cons]; omega)
      · rw [step_seek]
        unfold seek
        split
        · next isBlank =>
            refine safe_next (.elements found stack false z)
              ?_ (shorter_cons b i)
            rintro ⟨elements, rest, derives, closes⟩
            exact ⟨elements, rest, .blank isBlank derives, closes⟩
        · rw [List.headD_cons, if_neg close]
          exact (safe_beginValue inner (b :: i)).mono (Nat.le_refl _) element

end Elements

section Members

variable {object : JsonObject}
variable (found : values[top]? = some ⟨parent, .object object⟩)
variable (stack : Stack values parent frames)
include found stack

/-- Behind the name of a member. -/
theorem safe_colon (i : List Char) :
    Safe doubles (3 * i.length) (WantsColon doubles frames i)
      (step doubles true (outside values (some top) 0 true false true z)
        i) := by
  have inner : Stack values (some top) (.object :: frames) :=
    .enter found rfl stack
  cases i with
  | nil => trivial
  | cons b i =>
      rw [step_seek]
      unfold seek
      split
      · next isBlank =>
          refine safe_next (.colon found stack z) ?_ (shorter_next b i)
          rintro ⟨colon, blanks, value⟩
          exact ⟨colon, .blank isBlank blanks, value⟩
      · split
        · simp [outside, State.topValue, found, JsonData.isArray, Safe]
        · have noComma :
              ¬ (outside values (some top) 0 true false true z).needComma =
                true := Bool.false_ne_true
          have needs :
              (outside values (some top) 0 true false true z).needColon =
                true := rfl
          rw [if_neg noComma, if_pos needs, List.headD_cons]
          split
          · next isColon =>
              subst isColon
              exact safe_next (.value inner (fun _ => by simp) z)
                (fun value => ⟨i, .none _, value⟩) (shorter_next ':' i)
          · trivial

/-- Between the members of an object. -/
theorem safe_members (comma : Bool) (i : List Char)
    (fewer : 3 * i.length ≤ bound) :
    Safe doubles bound (WantsMembers doubles comma frames i)
      (step doubles true (outside values (some top) 0 false comma false z)
        i) := by
  have looks :
      step doubles true (outside values (some top) 0 false comma false z) i =
        inObject true (outside values (some top) 0 false comma false z) object
          (i.headD terminator) i := by
    simp [step, outside, State.topValue, found]
  rw [looks]
  cases i with
  | nil => simp [inObject, isWhitespace, terminator, Safe]
  | cons b i =>
      have next := Nat.lt_of_lt_of_le (shorter_next b i) fewer
      unfold inObject
      split
      · next isBlank =>
          refine safe_next (.members found stack comma z) ?_ next
          rintro ⟨members, rest, derives, closes⟩
          exact ⟨members, rest, .blank isBlank derives, closes⟩
      · rw [List.headD_cons]
        split
        · next isQuote =>
            subst isQuote
            cases comma with
            | true => trivial
            | false =>
                refine safe_next
                  (.name found stack false
                    { z with string := object.objectMem, stringLength := 0 })
                  ?_ next
                rintro ⟨name, behind, named, colon, blanks, json, middle, first,
                  members, rest, more, closes⟩
                exact ⟨(name, json) :: members, rest, .member named blanks first
                  more, closes⟩
        · split
          · next isClose =>
              subst isClose
              have fewer' : 3 * i.length < bound := by omega
              exact (safe_finish found stack fewer').mono (Nat.le_refl _)
                fun closes => ⟨[], i, .noMembers comma i, closes⟩
          · split
            · next isComma =>
                obtain ⟨rfl, afterMember⟩ := isComma
                obtain rfl : comma = true := afterMember
                refine safe_next (.members found stack false z) ?_ next
                rintro ⟨members, rest, derives, closes⟩
                exact ⟨members, rest, .memberComma derives, closes⟩
            · trivial

end Members

end Seek

/-! ## Strings -/

section Strings

variable {wants : List Char → Prop}

/-- A character of a string, when its closing quote is safe. -/
theorem safe_inside
    (awaits : ∀ escaped z,
      Awaits doubles (inside values (some top) 0 escaped z)
        (fun i => WantsText wants (if escaped then '\\' :: i else i)))
    (closing : ∀ z i,
      Safe doubles (3 * i.length + 3) (wants i)
        (closeString true (inside values (some top) 0 false z) i))
    (escaped : Bool) (i : List Char) :
    Safe doubles (3 * i.length)
      (WantsText wants (if escaped then '\\' :: i else i))
      (step doubles true (inside values (some top) 0 escaped z) i) := by
  cases i with
  | nil => trivial
  | cons b i =>
      by_cases visible : b = terminator
      · simp [step, inside, inString, visible, Safe]
      by_cases short : z.stringLength ≤ uintMax
      swap
      · simp [step, inside, inString, visible, Nat.lt_of_not_le short, Safe]
      cases escaped with
      | true =>
          by_cases unicode : b = 'u'
          · subst unicode
            cases read : readUnicode i with
            | none =>
                simp [step, inside, inString, terminator, Nat.not_lt.mpr short,
                  read, Safe]
            | some result =>
                obtain ⟨code, i'⟩ := result
                have digits := readUnicode_length read
                rw [step_unicode short read, addBytes_first]
                refine safe_next (awaits false _)
                  ?_ (by rw [List.length_cons]; omega)
                rintro ⟨bytes, rest, characters, wanted⟩
                exact ⟨encode code ++ bytes, rest, .unicode read characters,
                  wanted⟩
          · rw [step_escaped short visible unicode, addBytes_first]
            refine safe_next (awaits false _) ?_ (shorter_next b i)
            rintro ⟨bytes, rest, characters, wanted⟩
            exact ⟨unescape b :: bytes, rest, .escape b visible unicode
              characters, wanted⟩
      | false =>
          by_cases backslash : b = '\\'
          · subst backslash
            rw [step_backslash short]
            exact safe_next (awaits true _) id (shorter_next _ i)
          by_cases quote : b = '"'
          · subst quote
            rw [step_quote short]
            exact (closing z i).mono (by rw [List.length_cons]; omega)
              fun wanted => ⟨[], i, .close i, wanted⟩
          · rw [step_plain short visible backslash quote, addBytes_first]
            refine safe_next (awaits false _) ?_ (shorter_next b i)
            rintro ⟨bytes, rest, characters, wanted⟩
            exact ⟨b :: bytes, rest, .plain b visible backslash quote
              characters, wanted⟩

/-- A character of a string is safe. -/
theorem safe_string {string : JsonString}
    (found : values[top]? = some ⟨parent, .string string⟩)
    (stack : Stack values parent frames) (escaped : Bool) (i : List Char) :
    Safe doubles (3 * i.length)
      (WantsText (Closes doubles frames)
        (if escaped then '\\' :: i else i))
      (step doubles true (inside values (some top) 0 escaped z) i) := by
  refine safe_inside (fun escaped z => .string found stack escaped z) ?_
    escaped i
  intro z i
  have ended :
      closeString true (inside values (some top) 0 false z) i =
        finish true
          (complete
            (replaceTop values top
              (.string { string with length := z.stringLength })) top 0 z)
          i := by
    have own : (complete values top 0 z).topValue =
        some ⟨parent, .string string⟩ := found
    simp only [closeString, leaveString, inside_closed, if_true, own]
    rfl
  rw [ended]
  exact safe_finish (getElem?_replaceTop found _)
    (stack.keep (keeps_replaceTop found (fun _ kind => absurd kind (by
      simp [JsonData.frame])))) (by omega)

/-- A character of a name is safe. -/
theorem safe_name {object : JsonObject}
    (found : values[top]? = some ⟨parent, .object object⟩)
    (stack : Stack values parent frames) (escaped : Bool) (i : List Char) :
    Safe doubles (3 * i.length)
      (WantsText (WantsColon doubles frames)
        (if escaped then '\\' :: i else i))
      (step doubles true (inside values (some top) 0 escaped z) i) := by
  refine safe_inside (fun escaped z => .name found stack escaped z) ?_
    escaped i
  intro z i
  have ended :
      closeString true (inside values (some top) 0 false z) i =
        .next
          (outside
            (replaceTop values top
              (.object
                { object with
                  nameBytes := object.nameBytes + (z.stringLength + 1) }))
            (some top) 0 true false true z) i := by
    have own : (complete values top 0 z).topValue =
        some ⟨parent, .object object⟩ := found
    simp only [closeString, leaveString, inside_closed, if_true, own, closeName]
    rfl
  have kept : Keeps values
      (replaceTop values top
        (.object
          { object with
            nameBytes := object.nameBytes + (z.stringLength + 1) })) :=
    keeps_replaceTop found fun _ kind => kind
  rw [ended]
  exact safe_next
    (.colon (getElem?_replaceTop found _) (stack.keep kept) z) id (by omega)

end Strings

/-! ## Numbers -/

section Numbers

variable {data : JsonData}

/-- A character is read into the open number. -/
theorem step_number (found : values[top]? = some ⟨parent, data⟩)
    (isNumber : data.isNumber = true) (i : List Char) :
    step doubles true (complete values top 0 z) i =
      readNumber doubles true (complete values top 0 z) data
        (i.headD terminator) i := by
  have own : (complete values top 0 z).topValue = some ⟨parent, data⟩ := found
  rw [step, own]
  cases data with
  | integer value => rfl
  | double value => rfl
  | _ => exact absurd isNumber (by simp [JsonData.isNumber])

/-- The end of a number is safe. -/
theorem safe_endNumber (found : values[top]? = some ⟨parent, data⟩)
    (isNumber : data.isNumber = true) (stack : Stack values parent frames)
    (data' : JsonData) (i : List Char) :
    Safe doubles (3 * i.length + 1) (Closes doubles frames i)
      (endNumber doubles true (complete values top 0 z) data' i) := by
  have noFrame : ∀ frame, data.frame = some frame → False := by
    cases data <;> simp_all [JsonData.isNumber, JsonData.frame]
  exact safe_finish (getElem?_replaceTop found _)
    (stack.keep (keeps_replaceTop found fun frame kind =>
      (noFrame frame kind).elim)) (Nat.lt_succ_self _)

/-- A number replaced by a number. -/
theorem keeps_number {data' : JsonData}
    (found : values[top]? = some ⟨parent, data⟩)
    (isNumber : data.isNumber = true) :
    Keeps values (replaceTop values top data') := by
  refine keeps_replaceTop found fun frame kind => ?_
  cases data <;> simp_all [JsonData.isNumber, JsonData.frame]

/-- A character of a number is not the end of the text. -/
theorem exists_cons_of_headD_ne {i : List Char}
    (visible : i.headD terminator ≠ terminator) :
    ∃ b rest, i = b :: rest := by
  cases i with
  | nil => exact absurd rfl visible
  | cons b rest => exact ⟨b, rest, rfl⟩

theorem eq_cons_of_headD {i : List Char} {c : Char} (visible : c ≠ terminator)
    (head : i.headD terminator = c) : ∃ rest, i = c :: rest := by
  cases i with
  | nil => exact absurd head.symm visible
  | cons b rest => exact ⟨rest, congrArg (· :: rest) head⟩

theorem isDigits_cons {b : Char} (isDigit : b.isDigit = true)
    {digits : List Char} (isDigits : IsDigits digits) :
    IsDigits (b :: digits) := by
  intro c member
  rcases List.mem_cons.mp member with rfl | member
  · exact isDigit
  · exact isDigits c member

/-! ### What is wanted behind a character of a number -/

/-- A digit continues the whole part. -/
theorem wantsWhole_cons {b : Char} {i : List Char}
    (isDigit : b.isDigit = true) (noZero : z.numZero = false)
    (wants : WantsWhole doubles
      { z with
        numDigits := z.numDigits + 1
        numZero := z.numDigits + 1 == 1 && b == '0' } frames i) :
    WantsWhole doubles z frames (b :: i) := by
  obtain ⟨digits, fraction, exponent, rest, text, isDigits, alone, _, point,
    closes⟩ := wants
  refine ⟨b :: digits, fraction, exponent, rest, by rw [text]; rfl,
    isDigits_cons isDigit isDigits, ?_, ?_, ?_, closes⟩
  · intro zero
    exact absurd (noZero.symm.trans zero) Bool.false_ne_true
  · rintro first more same
    obtain ⟨rfl, rfl⟩ := List.cons.inj same
    exact alone (by simp [first])
  · intro nonempty
    have positive := point nonempty
    rw [List.length_cons]
    omega

/-- A point begins the fraction. -/
theorem wantsWhole_point {i : List Char} (digits : 0 < z.numDigits)
    (wants : WantsFraction doubles { z with numDigits := 0 } frames i) :
    WantsWhole doubles z frames ('.' :: i) := by
  obtain ⟨behind, exponent, rest, text, isDigits, positive, closes⟩ := wants
  simp only [Nat.zero_add] at positive
  refine ⟨[], some ⟨behind, List.length_pos_iff.mp positive, isDigits⟩,
    exponent, rest, by rw [text]; rfl, by simp [IsDigits], fun _ => rfl, ?_, ?_,
    closes⟩
  · exact fun _ more same => absurd same (by simp)
  · exact fun _ => digits

/-- An exponent from its mark, its sign and its digits. -/
theorem exponentText_of_wants {mark : Char} {i : List Char}
    (isMark : mark = 'e' ∨ mark = 'E')
    (wants : WantsExponent doubles z.marked frames i) :
    ∃ exponent rest, mark :: i = Numeral.exponentText exponent ++ rest ∧
      Closes doubles frames rest := by
  obtain ⟨sign, digits, rest, text, isSign, _, isDigits, positive, closes⟩ :=
    wants
  rw [show z.marked.numDigits = 0 from rfl, Nat.zero_add] at positive
  refine ⟨some
    { mark := mark
      mark_eq := isMark
      sign := sign
      sign_eq := isSign
      digits := digits
      digits_ne_nil := List.length_pos_iff.mp positive
      isDigits := isDigits }, rest, ?_, closes⟩
  rw [text, Numeral.exponentText, Exponent.text, List.cons_append,
    List.append_assoc]

/-- A whole part may end, with an exponent or without. -/
theorem wantsWhole_exponent (exponent : Option Exponent) {rest : List Char}
    (closes : Closes doubles frames rest) :
    WantsWhole doubles z frames (Numeral.exponentText exponent ++ rest) :=
  ⟨[], none, exponent, rest, rfl, by simp [IsDigits], fun _ => rfl,
    fun _ more same => absurd same (by simp), fun absent => absurd rfl absent,
    closes⟩

/-- A digit continues the fraction. -/
theorem wantsFraction_cons {b : Char} {i : List Char} {fraction : Int}
    (isDigit : b.isDigit = true)
    (wants : WantsFraction doubles
      { z with numDigits := z.numDigits + 1, numFraction := fraction } frames
      i) :
    WantsFraction doubles z frames (b :: i) := by
  obtain ⟨digits, exponent, rest, text, isDigits, positive, closes⟩ := wants
  exact ⟨b :: digits, exponent, rest, by rw [text]; rfl,
    isDigits_cons isDigit isDigits, by rw [List.length_cons]; omega, closes⟩

/-- A fraction with digits may end. -/
theorem wantsFraction_exponent (exponent : Option Exponent)
    {rest : List Char} (digits : 0 < z.numDigits)
    (closes : Closes doubles frames rest) :
    WantsFraction doubles z frames (Numeral.exponentText exponent ++ rest) :=
  ⟨[], exponent, rest, rfl, by simp [IsDigits], digits, closes⟩

/-- A digit continues the exponent. -/
theorem wantsExponent_cons {b : Char} {i : List Char} {exponent : Int}
    (isDigit : b.isDigit = true)
    (wants : WantsExponent doubles
      { z with
        numEGotSign := true
        numDigits := z.numDigits + 1
        exponent := exponent } frames i) :
    WantsExponent doubles z frames (b :: i) := by
  obtain ⟨sign, digits, rest, text, _, noSign, isDigits, positive, closes⟩ :=
    wants
  obtain rfl := noSign rfl
  exact ⟨none, b :: digits, rest, by rw [text]; rfl, by simp, fun _ => rfl,
    isDigits_cons isDigit isDigits, by rw [List.length_cons]; omega, closes⟩

/-- A sign may stand in front of the digits of the exponent. -/
theorem wantsExponent_sign {b : Char} {i : List Char} {minus : Bool}
    (isSign : b = '+' ∨ b = '-') (noSign : z.numEGotSign = false)
    (wants : WantsExponent doubles
      { z with numEGotSign := true, numENegative := minus } frames i) :
    WantsExponent doubles z frames (b :: i) := by
  obtain ⟨sign, digits, rest, text, _, gotSign, isDigits, positive, closes⟩ :=
    wants
  obtain rfl := gotSign rfl
  refine ⟨some b, digits, rest, by rw [text]; rfl, ?_, ?_, isDigits, positive,
    closes⟩
  · rintro c ⟨⟩
    exact isSign
  · intro got
    exact absurd (noSign.symm.trans got) Bool.false_ne_true

/-- An exponent with digits may end. -/
theorem wantsExponent_end {i : List Char} (digits : 0 < z.numDigits)
    (closes : Closes doubles frames i) :
    WantsExponent doubles z frames i :=
  ⟨none, [], i, rfl, by simp, fun _ => rfl, by simp [IsDigits], digits,
    closes⟩

/-! ### A character of a number -/

theorem shorter_number (b : Char) (i : List Char) :
    3 * i.length + 2 < 3 * (b :: i).length + 1 :=
  Nat.lt_succ_of_lt (shorter_next b i)

/-- The digits in front of the point. -/
theorem safe_whole {number : Int}
    (found : values[top]? = some ⟨parent, .integer number⟩)
    (stack : Stack values parent frames) (noE : z.numE = false)
    (i : List Char) :
    Safe doubles (3 * i.length + 1) (WantsWhole doubles z frames i)
      (step doubles true (complete values top 0 z) i) := by
  have keeps (data : JsonData) : Keeps values (replaceTop values top data) :=
    keeps_number found rfl
  have same : (complete values top 0 z).scratch = z := rfl
  rw [step_number found rfl]
  by_cases isDigit : (i.headD terminator).isDigit = true
  · obtain ⟨b, i, rfl⟩ :=
      exists_cons_of_headD_ne (isDigit_ne isDigit (by decide))
    rw [List.headD_cons] at isDigit ⊢
    cases zero : z.numZero with
    | true => simp [readNumber, isDigit, readDigit, noE, zero, Safe]
    | false =>
        have read :
            readNumber doubles true (complete values top 0 z)
                (.integer number) b (b :: i) =
              .next
                (complete
                  (replaceTop values top
                    (.integer (toInt64 (number * 10 + digitValue b)))) top 0
                  { z with
                    numDigits := z.numDigits + 1
                    numZero := z.numDigits + 1 == 1 && b == '0' }) i := by
          simp only [readNumber, isDigit, if_true, readDigit, same, noE, zero,
            Bool.false_eq_true, if_false]
          rfl
        rw [read]
        exact safe_next
          (.whole (getElem?_replaceTop found _) (stack.keep (keeps _)) noE)
          (wantsWhole_cons isDigit zero) (shorter_number b i)
  by_cases isPoint : i.headD terminator = '.'
  · obtain ⟨i, rfl⟩ := eq_cons_of_headD (by decide) isPoint
    have read :
        readNumber doubles true (complete values top 0 z) (.integer number)
            '.' ('.' :: i) =
          if z.numDigits = 0 then
            .stop (.failed (complete values top 0 z))
          else
            .next
              (complete
                (replaceTop values top (.double (doubles.ofInteger number)))
                top 0 { z with numDigits := 0 }) i := by
      have noDigit : '.'.isDigit = false := by decide
      simp only [readNumber, noDigit, same, noE, JsonData.isInteger,
        Bool.false_eq_true, false_and, and_false, and_self, if_false, if_true]
      rfl
    rw [List.headD_cons, read]
    split
    · trivial
    · next digits =>
        exact safe_next
          (.fraction (getElem?_replaceTop found _) (stack.keep (keeps _)) noE)
          (wantsWhole_point (Nat.pos_of_ne_zero digits)) (shorter_number _ i)
  generalize head : i.headD terminator = b at *
  by_cases isMark : b = 'e' ∨ b = 'E'
  · have visible : b ≠ terminator := by
      rcases isMark with rfl | rfl <;> decide
    obtain ⟨i, rfl⟩ := eq_cons_of_headD visible head
    have read :
        readNumber doubles true (complete values top 0 z) (.integer number) b
            (b :: i) =
          .next
            (complete
              (replaceTop values top (.double (doubles.ofInteger number))) top
              0 z.marked) i := by
      simp only [readNumber, isDigit, isPoint, isMark, same, noE, addFraction,
        Bool.false_eq_true, false_and, and_false, if_false, if_true]
      rfl
    rw [read]
    refine safe_next
      (.exponent (getElem?_replaceTop found _) (stack.keep (keeps _)) rfl) ?_
      (shorter_number b i)
    intro wants
    obtain ⟨exponent, rest, text, closes⟩ := exponentText_of_wants isMark wants
    rw [text]
    exact wantsWhole_exponent _ closes
  · have ended :
        readNumber doubles true (complete values top 0 z) (.integer number) b
            i =
          endNumber doubles true (complete values top 0 z) (.integer number)
            i := by
      simp only [readNumber, isDigit, isPoint, isMark, same, noE, addFraction,
        Bool.false_eq_true, false_and, and_false, if_false]
    rw [ended]
    exact (safe_endNumber found rfl stack _ i).mono (Nat.le_refl _)
      (wantsWhole_exponent none)

/-- The digits behind the point. -/
theorem safe_fraction {dbl : Double}
    (found : values[top]? = some ⟨parent, .double dbl⟩)
    (stack : Stack values parent frames) (noE : z.numE = false)
    (i : List Char) :
    Safe doubles (3 * i.length + 1) (WantsFraction doubles z frames i)
      (step doubles true (complete values top 0 z) i) := by
  have keeps (data : JsonData) : Keeps values (replaceTop values top data) :=
    keeps_number found rfl
  have same : (complete values top 0 z).scratch = z := rfl
  rw [step_number found rfl]
  by_cases isDigit : (i.headD terminator).isDigit = true
  · obtain ⟨b, i, rfl⟩ :=
      exists_cons_of_headD_ne (isDigit_ne isDigit (by decide))
    rw [List.headD_cons] at isDigit ⊢
    have read :
        readNumber doubles true (complete values top 0 z) (.double dbl) b
            (b :: i) =
          .next
            (complete (replaceTop values top (.double dbl)) top 0
              { z with
                numDigits := z.numDigits + 1
                numFraction := toInt64 (z.numFraction * 10 + digitValue b) })
            i := by
      simp only [readNumber, isDigit, if_true, readDigit, same, noE,
        Bool.false_eq_true, if_false]
      rfl
    rw [read]
    exact safe_next
      (.fraction (getElem?_replaceTop found _) (stack.keep (keeps _)) noE)
      (wantsFraction_cons isDigit) (shorter_number b i)
  generalize head : i.headD terminator = b at *
  by_cases empty : z.numDigits = 0
  · simp [readNumber, isDigit, noE, JsonData.isInteger, addFraction, empty,
      Safe]
  have digits := Nat.pos_of_ne_zero empty
  by_cases isMark : b = 'e' ∨ b = 'E'
  · have visible : b ≠ terminator := by
      rcases isMark with rfl | rfl <;> decide
    obtain ⟨i, rfl⟩ := eq_cons_of_headD visible head
    have read : ∃ dbl',
        readNumber doubles true (complete values top 0 z) (.double dbl) b
            (b :: i) =
          .next
            (complete (replaceTop values top (.double dbl')) top 0 z.marked)
            i := by
      simp only [readNumber, isDigit, isMark, same, noE, JsonData.isInteger,
        addFraction, empty, Bool.false_eq_true, false_and, and_false, if_false,
        if_true]
      exact ⟨_, rfl⟩
    obtain ⟨dbl', read⟩ := read
    rw [read]
    refine safe_next
      (.exponent (getElem?_replaceTop found _) (stack.keep (keeps _)) rfl) ?_
      (shorter_number b i)
    intro wants
    obtain ⟨exponent, rest, text, closes⟩ := exponentText_of_wants isMark wants
    rw [text]
    exact wantsFraction_exponent _ digits closes
  · have ended : ∃ data',
        readNumber doubles true (complete values top 0 z) (.double dbl) b i =
          endNumber doubles true (complete values top 0 z) data' i := by
      simp only [readNumber, isDigit, isMark, same, noE, JsonData.isInteger,
        addFraction, empty, Bool.false_eq_true, false_and, and_false, if_false]
      exact ⟨_, rfl⟩
    obtain ⟨data', ended⟩ := ended
    rw [ended]
    exact (safe_endNumber found rfl stack _ i).mono (Nat.le_refl _)
      (wantsFraction_exponent .none digits)

/-- The sign and the digits of an exponent. -/
theorem safe_exponent {dbl : Double}
    (found : values[top]? = some ⟨parent, .double dbl⟩)
    (stack : Stack values parent frames) (afterE : z.numE = true)
    (i : List Char) :
    Safe doubles (3 * i.length + 1) (WantsExponent doubles z frames i)
      (step doubles true (complete values top 0 z) i) := by
  have keeps (data : JsonData) : Keeps values (replaceTop values top data) :=
    keeps_number found rfl
  have same : (complete values top 0 z).scratch = z := rfl
  rw [step_number found rfl]
  by_cases isDigit : (i.headD terminator).isDigit = true
  · obtain ⟨b, i, rfl⟩ :=
      exists_cons_of_headD_ne (isDigit_ne isDigit (by decide))
    rw [List.headD_cons] at isDigit ⊢
    have read :
        readNumber doubles true (complete values top 0 z) (.double dbl) b
            (b :: i) =
          .next
            (complete (replaceTop values top (.double dbl)) top 0
              { z with
                numEGotSign := true
                numDigits := z.numDigits + 1
                exponent := toInt64 (z.exponent * 10 + digitValue b) }) i := by
      simp only [readNumber, isDigit, if_true, readDigit, same, afterE]
      rfl
    rw [read]
    exact safe_next
      (.exponent (getElem?_replaceTop found _) (stack.keep (keeps _)) afterE)
      (wantsExponent_cons isDigit) (shorter_number b i)
  generalize head : i.headD terminator = b at *
  by_cases isSign : (b = '+' ∨ b = '-') ∧ z.numEGotSign = false
  · obtain ⟨isSign, noSign⟩ := isSign
    have visible : b ≠ terminator := by
      rcases isSign with rfl | rfl <;> decide
    obtain ⟨i, rfl⟩ := eq_cons_of_headD visible head
    have read :
        readNumber doubles true (complete values top 0 z) (.double dbl) b
            (b :: i) =
          .next
            (complete values top 0
              { z with
                numEGotSign := true
                numENegative := z.numENegative || b == '-' }) i := by
      simp only [readNumber, isDigit, isSign, same, afterE, noSign,
        Bool.false_eq_true, not_false_eq_true, and_self, if_false, if_true]
      rfl
    rw [read]
    exact safe_next (.exponent found stack afterE)
      (wantsExponent_sign isSign noSign) (shorter_number b i)
  have noSign :
      ¬ ((b = '+' ∨ b = '-') ∧ True ∧ ¬ z.numEGotSign = true) :=
    fun signed => isSign ⟨signed.1, Bool.not_eq_true _ ▸ signed.2.2⟩
  by_cases empty : z.numDigits = 0
  · have failed :
        readNumber doubles true (complete values top 0 z) (.double dbl) b i =
          .stop (.failed (complete values top 0 z)) := by
      simp only [readNumber, isDigit, same, if_neg noSign, afterE,
        JsonData.isInteger, empty, Bool.false_eq_true, and_false, if_false,
        if_true]
    rw [failed]
    trivial
  · have ended :
        readNumber doubles true (complete values top 0 z) (.double dbl) b i =
          endNumber doubles true (complete values top 0 z)
            (scale doubles z (.double dbl)) i := by
      simp only [readNumber, isDigit, same, if_neg noSign, afterE,
        JsonData.isInteger, empty, Bool.false_eq_true, and_false, if_false,
        if_true]
    rw [ended]
    exact (safe_endNumber found rfl stack _ i).mono (Nat.le_refl _)
      (wantsExponent_end (Nat.pos_of_ne_zero empty))

end Numbers

/-! ## The whole pass -/

section Pass

/-- A character behind the value is safe. -/
theorem safe_trailing (i : List Char) :
    Safe doubles (3 * i.length) (Trailing i)
      (step doubles true (behind values top 0 z) i) := by
  cases i with
  | nil => exact Trailing.nil
  | cons b i =>
      by_cases ended : b = terminator
      · subst ended
        exact Trailing.terminated i
      by_cases isBlank : isWhitespace b = true
      · have passed :
            step doubles true (behind values top 0 z) (b :: i) =
              .next (behind values top 0 z) i := by
          simp [step, behind, ended, isBlank, proceed]
        rw [passed]
        exact safe_next (.trailing values top z) (.blank isBlank)
          (shorter_next b i)
      · simp [step, behind, ended, isBlank, Safe]

/-- Every iteration is safe and gets nearer to the end. -/
theorem safe_step {s : State} {demand : List Char → Prop}
    (awaits : Awaits doubles s demand) (i : List Char) :
    Safe doubles (weight s i) (demand i) (step doubles true s i) := by
  cases awaits with
  | trailing values top z => exact safe_trailing i
  | value stack noArray z => exact safe_seekValue stack noArray i
  | elements found stack comma z =>
      cases comma with
      | true => exact safe_elementComma found stack i
      | false => exact safe_element found stack i
  | members found stack comma z =>
      exact safe_members found stack comma i (Nat.le_add_right _ _)
  | colon found stack z => exact safe_colon found stack i
  | string found stack escaped z => exact safe_string found stack escaped i
  | name found stack escaped z => exact safe_name found stack escaped i
  | whole found stack noE => exact safe_whole found stack noE i
  | fraction found stack noE => exact safe_fraction found stack noE i
  | exponent found stack afterE => exact safe_exponent found stack afterE i

/-- From every state the pass ends, without a fault, as its demand says. -/
theorem pass_ends {s : State} {demand : List Char → Prop}
    (awaits : Awaits doubles s demand) (i : List Char) :
    ∃ ending,
      Rounds.Returns (fun rounds => pass doubles true rounds s i) ending ∧
        ending ≠ .fault ∧ ∀ s', ending = .ended s' → demand i := by
  -- by induction on the bound for the number of iterations
  induction fewer : weight s i using Nat.strong_induction_on
    generalizing s demand i with
  | _ bound ih =>
      have safe := safe_step awaits i
      cases iteration : step doubles true s i with
      | next s' i' =>
          rw [iteration] at safe
          obtain ⟨nearer, demand', awaits', implies⟩ := safe
          obtain ⟨ending, returns, noFault, ends⟩ :=
            ih (weight s' i') (fewer ▸ nearer) awaits' i' rfl
          refine ⟨ending, ?_, noFault, fun last ended =>
            implies (ends last ended)⟩
          exact returns.step fun rounds => by simp only [pass, iteration]
      | stop ending =>
          rw [iteration] at safe
          refine ⟨ending, (Leads.last iteration).returns, ?_, ?_⟩
          · rintro rfl
            exact safe
          · rintro last rfl
            exact safe

end Pass

end YiimpStratum.Parse
