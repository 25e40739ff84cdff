import YiimpStratum.Parse.Number

/-!
# What the first pass measures

The first pass over the text of a value allocates the values in it and counts
their elements, their members and their bytes.
-/

namespace YiimpStratum.Parse

open YiimpStratum
open YiimpStratum.Util

/-! ## Lengths -/

/-- Four digits are read for an escaped character. -/
theorem readHex_length {i rest : List Char} {code : Nat}
    (read : readHex i = some (code, rest)) : i.length = rest.length + 4 := by
  match i with
  | c₁ :: c₂ :: c₃ :: c₄ :: i =>
      simp only [readHex] at read
      split at read
      · exact absurd read (by simp)
      · obtain ⟨-, rfl⟩ := Prod.mk.inj (Option.some.inj read)
        rfl
  | [] | [_] | [_, _] | [_, _, _] => exact absurd read (by simp [readHex])

/-- At least four digits are read for a character of `\u`. -/
theorem readUnicode_length {i rest : List Char} {code : Nat}
    (read : readUnicode i = some (code, rest)) :
    rest.length + 4 ≤ i.length := by
  simp only [readUnicode] at read
  split at read
  · exact absurd read (by simp)
  · next first middle firstRead =>
      have firstLength := readHex_length firstRead
      split at read
      · split at read
        · next later =>
            split at read
            · exact absurd read (by simp)
            · next second last secondRead =>
                have secondLength := readHex_length secondRead
                obtain ⟨-, rfl⟩ := Prod.mk.inj (Option.some.inj read)
                simp only [List.length_cons] at firstLength
                omega
        · exact absurd read (by simp)
      · obtain ⟨-, rfl⟩ := Prod.mk.inj (Option.some.inj read)
        omega

/-- A character has at most four bytes. -/
theorem length_encode_le (code : Nat) : (encode code).length ≤ 4 := by
  unfold encode
  split
  · simp
  · split
    · simp
    · split <;> simp

/-- A string takes at least its closing quote. -/
theorem Characters.length_lt {i bytes rest : List Char}
    (characters : Characters i bytes rest) : rest.length < i.length := by
  induction characters with
  | close rest => exact Nat.lt_succ_self _
  | plain b _ _ _ _ ih => exact Nat.lt_succ_of_lt ih
  | escape b _ _ _ ih => exact Nat.lt_succ_of_lt (Nat.lt_succ_of_lt ih)
  | unicode read _ ih =>
      have digits := readUnicode_length read
      simp only [List.length_cons]
      omega

/-- Blanks are skipped only. -/
theorem Blanks.length_le {i rest : List Char} (blanks : Blanks i rest) :
    rest.length ≤ i.length := by
  induction blanks with
  | none i => exact Nat.le_refl _
  | blank _ _ ih => exact Nat.le_succ_of_le ih

/-- A number has at least one character. -/
theorem Numeral.text_ne_nil (numeral : Numeral) : numeral.text ≠ [] := by
  rcases numeral.whole_ne_nil with nonempty | ⟨minus, _⟩
  · simp [Numeral.text, nonempty]
  · simp [Numeral.text, minus]

/-- What is derived takes at least one character. -/
theorem Derives.length_lt {doubles : Doubles} {phrase : Phrase}
    {i rest : List Char} (derives : Derives doubles phrase i rest) :
    rest.length < i.length := by
  induction derives with
  | blank _ _ ih => exact Nat.lt_succ_of_lt ih
  | number numeral rest =>
      rw [List.length_append]
      exact Nat.lt_add_of_pos_left
        (List.length_pos_iff.mpr numeral.text_ne_nil)
  | string characters => exact Nat.lt_succ_of_lt characters.length_lt
  | array _ ih => exact Nat.lt_succ_of_lt ih
  | object _ ih => exact Nat.lt_succ_of_lt ih
  | elementComma _ ih => exact Nat.lt_succ_of_lt ih
  | element _ _ first more => exact Nat.lt_trans more first
  | memberComma _ ih => exact Nat.lt_succ_of_lt ih
  | member named blanks _ _ first more =>
      have name := named.length_lt
      have colon := blanks.length_le
      simp only [List.length_cons] at colon ⊢
      omega
  | _ => simp only [List.length_cons]; omega

/-! ## What follows a value -/

/-- A blank ends a number. -/
theorem delimited_blank {b : Char} (isBlank : isWhitespace b = true)
    (i : List Char) : Delimited (b :: i) := by
  simp only [isWhitespace, Bool.or_eq_true, beq_iff_eq] at isBlank
  rcases isBlank with ((rfl | rfl) | rfl) | rfl <;> rfl

/-- What follows an element ends a number. -/
theorem Derives.delimited_elements {doubles : Doubles}
    {elements : List Json} {i rest : List Char}
    (derives : Derives doubles (.elements true elements) i rest) :
    Delimited i := by
  cases derives with
  | blank isBlank _ => exact delimited_blank isBlank _
  | noElements comma rest => rfl
  | elementComma _ => rfl

/-- What follows a member ends a number. -/
theorem Derives.delimited_members {doubles : Doubles}
    {members : List (CString × Json)} {i rest : List Char}
    (derives : Derives doubles (.members true members) i rest) :
    Delimited i := by
  cases derives with
  | blank isBlank _ => exact delimited_blank isBlank _
  | noMembers comma rest => rfl
  | memberComma _ => rfl

/-- What may stand behind the value ends a number. -/
theorem Trailing.delimited {i : List Char} (trailing : Trailing i) :
    Delimited i := by
  cases trailing with
  | nil => rfl
  | terminated i => rfl
  | blank isBlank _ => exact delimited_blank isBlank _

/-! ## Strings -/

section Strings

variable {doubles : Doubles}
variable {values : List JsonValue} {top : Option Nat}

/-- The first pass counts bytes. -/
theorem stringAdd_first (bytes : List Char) (escaped : Bool) (z : Scratch) :
    stringAdd true bytes (inside values top 0 escaped z) =
      some
        (inside values top 0 escaped
          { z with stringLength := z.stringLength + bytes.length }) := by
  induction bytes generalizing z with
  | nil => rfl
  | cons b bytes ih =>
      rw [stringAdd, List.length_cons, Nat.add_comm bytes.length 1,
        ← Nat.add_assoc]
      exact ih { z with stringLength := z.stringLength + 1 }

/-- The first pass only counts the bytes. -/
theorem addBytes_first (bytes : List Char) (z : Scratch) (i : List Char) :
    addBytes true bytes (inside values top 0 false z) i =
      .next
        (inside values top 0 false
          { z with stringLength := z.stringLength + bytes.length }) i := by
  rw [addBytes, stringAdd_first]

/-- The bytes of a string are counted up to its closing quote. -/
theorem leads_measured_bytes {i bytes rest : List Char}
    (characters : Characters i bytes rest) (z : Scratch)
    (bounded : z.stringLength + i.length ≤ uintMax) :
    Leads doubles true (inside values top 0 false z) i
      (closeString true
        (inside values top 0 false
          { z with stringLength := z.stringLength + bytes.length })
        rest) := by
  induction characters generalizing z with
  | close rest =>
      exact .last (step_quote (Nat.le_of_add_right_le bounded) rest)
  | @plain b visible unescaped unquoted i bytes rest _ ih =>
      have counted :=
        (@step_plain doubles true values top 0 z
          (Nat.le_of_add_right_le bounded) b visible unescaped unquoted
          i).trans (addBytes_first [b] z i)
      rw [List.length_cons] at bounded
      have later := ih { z with stringLength := z.stringLength + 1 }
        (by simp only; omega)
      rw [Nat.add_right_comm] at later
      exact .more counted later
  | @escape b visible other i bytes rest _ ih =>
      have short := Nat.le_of_add_right_le bounded
      have counted :=
        (@step_escaped doubles true values top 0 z short b visible other
          i).trans (addBytes_first [unescape b] z i)
      simp only [List.length_cons] at bounded
      have later := ih { z with stringLength := z.stringLength + 1 }
        (by simp only; omega)
      rw [Nat.add_right_comm] at later
      exact .more (step_backslash short _) (.more counted later)
  | @unicode code digits i bytes rest read _ ih =>
      have short := Nat.le_of_add_right_le bounded
      have counted :=
        (@step_unicode doubles true values top 0 z short digits i code
          read).trans (addBytes_first (encode code) z i)
      have digitsLength := readUnicode_length read
      have codeLength := length_encode_le code
      simp only [List.length_cons] at bounded
      have later :=
        ih { z with stringLength := z.stringLength + (encode code).length }
          (by simp only; omega)
      rw [Nat.add_assoc, ← List.length_append] at later
      exact .more (step_backslash short _) (.more counted later)

/-- A string that is a value has been measured. -/
theorem closeString_value (before : List JsonValue) (parent : Option Nat)
    (length : Nat) (z : Scratch) (i : List Char) :
    closeString true
        (inside (before ++ [⟨parent, .string ⟨length, []⟩⟩])
          (some before.length) 0 false z) i =
      finish true
        (complete (before ++ [⟨parent, .string ⟨z.stringLength, []⟩⟩])
          before.length 0 z) i := by
  simp only [closeString, leaveString, inside_closed, if_true,
    topValue_outside, setTop_outside]
  rfl

/-- The bytes of a name have been added up. -/
theorem closeString_name (before kids : List JsonValue) (parent : Option Nat)
    (length bytes : Nat) (z : Scratch) (i : List Char) :
    closeString true
        (inside
          (before ++ ⟨parent, .object ⟨length, bytes, [], [], 0⟩⟩ :: kids)
          (some before.length) 0 false z) i =
      .next
        (outside
          (before ++
            ⟨parent,
              .object
                ⟨length, bytes + (z.stringLength + 1), [], [], 0⟩⟩ :: kids)
          (some before.length) 0 true false true z) i := by
  simp only [closeString, leaveString, inside_closed, if_true,
    topValue_outside, closeName, setTop_outside]
  rfl

end Strings

/-! ## The end of an element -/

/-- The data of an object and of an array, as they are measured. -/
def countedObject (length bytes : Nat) : JsonData :=
  .object
    { length := length
      nameBytes := bytes
      values := []
      names := []
      objectMem := 0 }

def countedArray (length : Nat) : JsonData :=
  .array { length := length, values := [] }

/-- The end of a value counts it in its parent. -/
theorem finish_measured (before kids : List JsonValue) (parent : Option Nat)
    (data : JsonData) (json : Json) (z : Scratch) (i : List Char)
    (bounded : data.countUp.length ≤ uintMax) :
    finish true
        (complete
          (before ++ ⟨parent, data⟩ ::
            (kids ++ measured (some before.length)
              (before.length + (kids.length + 1)) json))
          (before.length + (kids.length + 1)) 0 z) i =
      .next
        (outside
          (before ++ ⟨parent, data.countUp⟩ ::
            (kids ++ measured (some before.length)
              (before.length + (kids.length + 1)) json))
          (some before.length) 0 data.isArray true false z) i := by
  obtain ⟨inner, laid⟩ := layout_eq_cons (fun _ => measure)
    (some before.length) (before.length + (kids.length + 1)) json
  rw [measured, laid]
  exact finish_child before kids inner parent _ 0 z i rfl bounded

/-! ## Values -/

section Values

variable {doubles : Doubles}

/-- What the first pass does with a phrase. -/
def Measures (doubles : Doubles) : Phrase → List Char → List Char → Prop
  | .value json, i, rest =>
      Delimited rest → i.length ≤ uintMax →
        ∀ (before : List JsonValue) (parent : Option Nat) (z : Scratch),
          ∃ z', Leads doubles true
            (outside before parent 0 true false false z) i
            (finish true
              (complete (before ++ measured parent before.length json)
                before.length 0 z') rest)
  | .elements comma elements, i, rest =>
      ∀ (length : Nat), length + i.length ≤ uintMax →
        ∀ (before kids : List JsonValue) (parent : Option Nat) (z : Scratch),
          ∃ z', Leads doubles true
            (outside (before ++ ⟨parent, countedArray length⟩ :: kids)
              (some before.length) 0 true comma false z) i
            (finish true
              (complete
                (before ++
                  ⟨parent, countedArray (length + elements.length)⟩ ::
                    (kids ++ layoutElements (fun _ => measure) before.length
                      (before.length + (kids.length + 1)) elements))
                before.length 0 z') rest)
  | .members comma members, i, rest =>
      ∀ (length bytes : Nat), length + i.length ≤ uintMax →
        ∀ (before kids : List JsonValue) (parent : Option Nat) (z : Scratch),
          ∃ z', Leads doubles true
            (outside (before ++ ⟨parent, countedObject length bytes⟩ :: kids)
              (some before.length) 0 false comma false z) i
            (finish true
              (complete
                (before ++
                  ⟨parent,
                    countedObject (length + members.length)
                      (bytes + nameBytes members)⟩ ::
                    (kids ++ layoutMembers (fun _ => measure) before.length
                      (before.length + (kids.length + 1)) members))
                before.length 0 z') rest)

variable {i middle rest : List Char}

/-- A blank in front changes nothing. -/
theorem measures_blank {b : Char} (isBlank : isWhitespace b = true)
    {phrase : Phrase} (more : Measures doubles phrase i rest) :
    Measures doubles phrase (b :: i) rest := by
  cases phrase with
  | value json =>
      intro delimited bounded before parent z
      obtain ⟨z', leads⟩ :=
        more delimited (Nat.le_of_succ_le bounded) before parent z
      exact ⟨z', .more (step_blank isBlank i) leads⟩
  | elements comma elements =>
      intro length bounded before kids parent z
      obtain ⟨z', leads⟩ :=
        more length (Nat.le_of_succ_le bounded) before kids parent z
      exact ⟨z', .more (step_blank isBlank i) leads⟩
  | members comma members =>
      intro length bytes bounded before kids parent z
      obtain ⟨z', leads⟩ :=
        more length bytes (Nat.le_of_succ_le bounded) before kids parent z
      exact ⟨z', .more (step_between_blank _ _ _ _ _ _ _ _ isBlank) leads⟩

/-- A value without characters of its own. -/
theorem measures_constant {json : Json} {word : List Char}
    (alone : ∀ parent base,
      measured parent base json = [⟨parent, measure json⟩])
    (read : ∀ before parent z,
      step doubles true (outside before parent 0 true false false z)
          (word ++ rest) =
        finish true
          (complete (before ++ [⟨parent, measure json⟩]) before.length 0 z)
          rest) :
    Measures doubles (.value json) (word ++ rest) rest := by
  intro _ _ before parent z
  rw [alone]
  exact ⟨z, .last (read before parent z)⟩

/-- The first pass over `null`. -/
theorem measures_null (rest : List Char) :
    Measures doubles (.value .null) ('n' :: 'u' :: 'l' :: 'l' :: rest) rest :=
  @measures_constant doubles rest .null ['n', 'u', 'l', 'l']
    (fun _ _ => by rw [measured, layout] <;> simp) fun before parent z => by
      simp [step, outside, seek, isWhitespace, beginValue, constant, newValue,
        measure]

/-- The first pass over `true`. -/
theorem measures_true (rest : List Char) :
    Measures doubles (.value (.boolean true)) ('t' :: 'r' :: 'u' :: 'e' :: rest)
      rest :=
  @measures_constant doubles rest (.boolean true) ['t', 'r', 'u', 'e']
    (fun _ _ => by rw [measured, layout] <;> simp) fun before parent z => by
      have stored :=
        setTop_outside before parent (.boolean false) [] 0 z false false false
          (.boolean true)
      simp only [outside] at stored
      simp [step, outside, seek, isWhitespace, beginValue, constantTrue,
        newValue, measure, stored]

/-- The first pass over `false`. -/
theorem measures_false (rest : List Char) :
    Measures doubles (.value (.boolean false))
      ('f' :: 'a' :: 'l' :: 's' :: 'e' :: rest) rest :=
  @measures_constant doubles rest (.boolean false) ['f', 'a', 'l', 's', 'e']
    (fun _ _ => by rw [measured, layout] <;> simp) fun before parent z => by
      simp [step, outside, seek, isWhitespace, beginValue, constant, newValue,
        measure]

/-- A number is measured as one value. -/
theorem measured_numeral (numeral : Numeral) (parent : Option Nat)
    (base : Nat) :
    measured parent base (numeral.value doubles) =
      [⟨parent, measure (numeral.value doubles)⟩] := by
  obtain ⟨negative, whole, _, _, fraction, exponent, _⟩ := numeral
  cases fraction <;> cases exponent <;> rfl

/-- The first pass over a number. -/
theorem measures_number (numeral : Numeral) :
    Measures doubles (.value (numeral.value doubles)) (numeral.text ++ rest)
      rest := by
  intro delimited _ before parent z
  obtain ⟨z', leads⟩ := leads_number numeral delimited
  rw [measured_numeral]
  exact ⟨z', leads⟩

/-- The first pass over a string. -/
theorem measures_string {text : List Char}
    (characters : Characters i text rest) :
    Measures doubles (.value (.string text)) ('"' :: i) rest := by
  intro _ bounded before parent z
  have opened :
      step doubles true (outside before parent 0 true false false z)
          ('"' :: i) =
        .next
          (inside (before ++ [⟨parent, newString⟩]) (some before.length) 0
            false { z with string := 0, stringLength := 0 }) i := by
    simp [step, outside, seek, isWhitespace, beginValue, newValue, inside]
  have bytes :=
    @leads_measured_bytes doubles (before ++ [⟨parent, newString⟩])
      (some before.length) i text rest characters
      { z with string := 0, stringLength := 0 }
      (by rw [Nat.zero_add]; exact Nat.le_of_succ_le bounded)
  simp only [newString, closeString_value, Nat.zero_add] at bytes
  exact ⟨_, .more opened bytes⟩

/-- The first pass over an array, by that over its elements. -/
theorem measures_array {elements : List Json}
    (inside : Measures doubles (.elements false elements) i rest) :
    Measures doubles (.value (.array elements)) ('[' :: i) rest := by
  intro _ bounded before parent z
  have opened :
      step doubles true (outside before parent 0 true false false z)
          ('[' :: i) =
        .next
          (outside (before ++ [⟨parent, countedArray 0⟩]) (some before.length)
            0 true false false z) i := by
    simp [step, outside, seek, isWhitespace, beginValue, newValue, newArray,
      countedArray]
  obtain ⟨z', leads⟩ :=
    inside 0 (by rw [Nat.zero_add]; exact Nat.le_of_succ_le bounded) before []
      parent z
  refine ⟨z', .more opened ?_⟩
  simpa [layout, measure, countedArray] using leads

/-- The first pass over an object, by that over its members. -/
theorem measures_object {members : List (CString × Json)}
    (inside : Measures doubles (.members false members) i rest) :
    Measures doubles (.value (.object members)) ('{' :: i) rest := by
  intro _ bounded before parent z
  have opened :
      step doubles true (outside before parent 0 true false false z)
          ('{' :: i) =
        .next
          (outside (before ++ [⟨parent, countedObject 0 0⟩])
            (some before.length) 0 false false false z) i := by
    simp [step, outside, seek, isWhitespace, beginValue, newValue, newObject,
      countedObject]
  obtain ⟨z', leads⟩ :=
    inside 0 0 (by rw [Nat.zero_add]; exact Nat.le_of_succ_le bounded) before
      [] parent z
  refine ⟨z', .more opened ?_⟩
  simpa [layout, measure, countedObject] using leads

/-- The end of an array. -/
theorem measures_noElements (comma : Bool) (rest : List Char) :
    Measures doubles (.elements comma []) (']' :: rest) rest := by
  intro length _ before kids parent z
  refine ⟨z, .last ?_⟩
  rw [layoutElements, List.append_nil]
  exact step_close_array before kids parent _ 0 comma z rest

/-- A comma between two elements. -/
theorem measures_elementComma {elements : List Json}
    (more : Measures doubles (.elements false elements) i rest) :
    Measures doubles (.elements true elements) (',' :: i) rest := by
  intro length bounded before kids parent z
  obtain ⟨z', leads⟩ :=
    more length (Nat.le_of_succ_le bounded) before kids parent z
  exact ⟨z', .more (step_comma i) leads⟩

/-- An element or the value of a member is counted in its parent. -/
theorem measures_child {json : Json}
    (first : Measures doubles (.value json) i middle)
    (delimited : Delimited middle) (short : i.length ≤ uintMax)
    (before kids : List JsonValue) (parent : Option Nat) (data : JsonData)
    (z : Scratch) (fits : data.countUp.length ≤ uintMax) :
    ∃ z', Leads doubles true
      (outside (before ++ ⟨parent, data⟩ :: kids) (some before.length) 0 true
        false false z) i
      (.next
        (outside
          (before ++ ⟨parent, data.countUp⟩ ::
            (kids ++ measured (some before.length)
              (before.length + (kids.length + 1)) json))
          (some before.length) 0 data.isArray true false z') middle) := by
  obtain ⟨z', value⟩ :=
    first delimited short (before ++ ⟨parent, data⟩ :: kids)
      (some before.length) z
  simp only [List.length_append, List.length_cons, List.append_assoc,
    List.cons_append] at value
  rw [finish_measured before kids parent _ json z' middle fits] at value
  exact ⟨z', value⟩

/-- The place behind a child and what is inside of it. -/
theorem index_behind (before : List JsonValue) (kids child : List JsonValue) :
    before.length + ((kids ++ child).length + 1) =
      before.length + (kids.length + 1) + child.length := by
  rw [List.length_append]
  omega

/-- The first pass over an element and those behind it. -/
theorem measures_element {json : Json} {elements : List Json}
    (shorter : middle.length < i.length) (delimited : Delimited middle)
    (first : Measures doubles (.value json) i middle)
    (more : Measures doubles (.elements true elements) middle rest) :
    Measures doubles (.elements false (json :: elements)) i rest := by
  intro length bounded before kids parent z
  have fits : length + 1 ≤ uintMax := by omega
  obtain ⟨z₁, value⟩ :=
    measures_child first delimited (by omega) before kids parent
      (countedArray length) z fits
  obtain ⟨z₂, leads⟩ :=
    more (length + 1) (by omega) before
      (kids ++ measured (some before.length)
        (before.length + (kids.length + 1)) json) parent z₁
  have count : length + 1 + elements.length = length + (elements.length + 1) :=
    by omega
  rw [index_behind, count, List.append_assoc] at leads
  exact ⟨z₂, value.trans leads⟩

/-- The end of an object. -/
theorem measures_noMembers (comma : Bool) (rest : List Char) :
    Measures doubles (.members comma []) ('}' :: rest) rest := by
  intro length bytes _ before kids parent z
  refine ⟨z, .last ?_⟩
  rw [layoutMembers, List.append_nil]
  exact step_between_close before kids parent _ 0 comma z rest

/-- A comma between two members. -/
theorem measures_memberComma {members : List (CString × Json)}
    (more : Measures doubles (.members false members) i rest) :
    Measures doubles (.members true members) (',' :: i) rest := by
  intro length bytes bounded before kids parent z
  obtain ⟨z', leads⟩ :=
    more length bytes (Nat.le_of_succ_le bounded) before kids parent z
  exact ⟨z', .more (step_between_comma before kids parent _ 0 z i) leads⟩

/-- The first pass over a member and those behind it. -/
theorem measures_member {behind colon : List Char} {name : CString}
    {json : Json} {members : List (CString × Json)}
    (named : Characters i name behind)
    (blanks : Blanks behind (':' :: colon))
    (shorter : middle.length < colon.length) (delimited : Delimited middle)
    (first : Measures doubles (.value json) colon middle)
    (more : Measures doubles (.members true members) middle rest) :
    Measures doubles (.members false ((name, json) :: members)) ('"' :: i)
      rest := by
  intro length bytes bounded before kids parent z
  have nameLength := named.length_lt
  have colonLength := blanks.length_le
  simp only [List.length_cons] at bounded colonLength
  have opened :=
    @step_between_quote doubles true before kids parent
      ⟨length, bytes, [], [], 0⟩ 0 z i
  have bytesRead :=
    @leads_measured_bytes doubles
      (before ++ ⟨parent, countedObject length bytes⟩ :: kids)
      (some before.length) i name behind named
      { z with string := 0, stringLength := 0 } (by simp only; omega)
  simp only [Nat.zero_add, countedObject, closeString_name] at bytesRead
  have fits : length + 1 ≤ uintMax := by omega
  obtain ⟨z₁, value⟩ :=
    measures_child first delimited (by omega) before kids parent
      (countedObject length (bytes + (name.length + 1)))
      { z with string := 0, stringLength := name.length } fits
  obtain ⟨z₂, leads⟩ :=
    more (length + 1) (bytes + (name.length + 1)) (by omega) before
      (kids ++ measured (some before.length)
        (before.length + (kids.length + 1)) json) parent z₁
  have count : length + 1 + members.length = length + (members.length + 1) :=
    by omega
  have total :
      bytes + (name.length + 1) + nameBytes members =
        bytes + nameBytes ((name, json) :: members) := by
    rw [nameBytes, nameBytes, List.map_cons, List.sum_cons, Nat.add_assoc]
  rw [index_behind, count, total, List.append_assoc] at leads
  exact ⟨z₂, .more opened (bytesRead.trans (leads_blanks blanks
    (.more (step_colon colon) (value.trans leads))))⟩

/-- The first pass measures everything that the grammar derives. -/
theorem measures {phrase : Phrase} (derives : Derives doubles phrase i rest) :
    Measures doubles phrase i rest := by
  induction derives with
  | blank isBlank _ ih => exact measures_blank isBlank ih
  | null rest => exact measures_null rest
  | constantTrue rest => exact measures_true rest
  | constantFalse rest => exact measures_false rest
  | number numeral rest => exact measures_number numeral
  | string characters => exact measures_string characters
  | array _ ih => exact measures_array ih
  | object _ ih => exact measures_object ih
  | noElements comma rest => exact measures_noElements comma rest
  | elementComma _ ih => exact measures_elementComma ih
  | element first more ihFirst ihMore =>
      exact measures_element first.length_lt more.delimited_elements ihFirst
        ihMore
  | noMembers comma rest => exact measures_noMembers comma rest
  | memberComma _ ih => exact measures_memberComma ih
  | member named blanks first more ihFirst ihMore =>
      exact measures_member named blanks first.length_lt
        more.delimited_members ihFirst ihMore

end Values

/-- The first pass over a text leaves the values of the text, measured. -/
theorem firstPass_returns {doubles : Doubles} {value : Json}
    {i rest : List Char} (derives : Derives doubles (.value value) i rest)
    (trailing : Trailing rest) (bounded : i.length ≤ uintMax) :
    ∃ z, Rounds.Returns
      (fun rounds => pass doubles true rounds (State.initial []) i)
      (.ended (behind (measured none 0 value) 0 0 z)) := by
  obtain ⟨z, leads⟩ :=
    measures derives trailing.delimited bounded [] none
      (State.initial []).scratch
  obtain ⟨inner, laid⟩ := layout_eq_cons (fun _ => measure) none 0 value
  simp only [List.nil_append, List.length_nil, measured, laid]
    at leads
  rw [measured, laid]
  exact ⟨z, (leads.trans (leads_trailing trailing 0)).returns⟩

end YiimpStratum.Parse
