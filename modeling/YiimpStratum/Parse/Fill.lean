import YiimpStratum.Parse.Measure

/-!
# What the second pass fills

The second pass over the text of a value takes the values that the first pass
left for it, allocates what was measured and writes exactly that: every cell of
an array, of a name and of a string, and none behind them.
-/

namespace YiimpStratum.Parse

open YiimpStratum
open YiimpStratum.Util

/-! ## Bytes -/

section Bytes

variable {doubles : Doubles}

/-- Data of which the text is a parameter. -/
def IsWindow (window : List (Option Char) → JsonData) : Prop :=
  ∀ cells offset c, offset < cells.length →
    (window cells).store offset c = some (window (cells.set offset (some c)))

/-- The bytes of a string are a window into its value. -/
theorem isWindow_string (length : Nat) :
    IsWindow fun cells => .string ⟨length, cells⟩ := by
  intro cells offset c inside
  simp [JsonData.store, inside]

/-- The bytes of the names are a window into their object. -/
theorem isWindow_object (length nameBytes : Nat) (values : List JsonMember)
    (objectMem : Nat) :
    IsWindow fun cells =>
      .object ⟨length, nameBytes, values, cells, objectMem⟩ := by
  intro cells offset c inside
  simp [JsonData.store, inside]

/-- A string that is being written into a window of the top value. -/
abbrev writing (window : List (Option Char) → JsonData)
    (before later : List JsonValue) (parent : Option Nat) (alloc : Nat)
    (cells : List (Option Char)) (z : Scratch) : State :=
  inside (before ++ ⟨parent, window cells⟩ :: later) (some before.length)
    alloc false z

theorem stringAdd_second {b : Char} {bytes : List Char} {s s' : State}
    (stored :
      storeAt
          { s with
            scratch :=
              { s.scratch with stringLength := s.scratch.stringLength + 1 } }
          (s.scratch.string + s.scratch.stringLength) b = some s') :
    stringAdd false (b :: bytes) s = stringAdd false bytes s' := by
  simp only [stringAdd, stored, Bool.false_eq_true, if_false]

variable {window : List (Option Char) → JsonData}
variable (isWindow : IsWindow window)
variable (before later : List JsonValue) (parent : Option Nat) (alloc : Nat)
include isWindow

/-- A byte is stored in the first free cell of the window. -/
theorem storeAt_writing (front : List (Option Char)) (room : Nat) (c : Char)
    (z : Scratch) :
    storeAt
        (writing window before later parent alloc
          (front ++ List.replicate (room + 1) none) z) front.length c =
      some
        (writing window before later parent alloc
          (front ++ some c :: List.replicate room none) z) := by
  have inside : front.length <
      (front ++ none :: List.replicate room (none : Option Char)).length := by
    simp
  have stored := isWindow _ _ c inside
  rw [set_middle] at stored
  rw [List.replicate_succ, storeAt, topValue_inside]
  simp only [stored, setTop_inside]

/-- The second pass writes the bytes that the first has counted. -/
theorem stringAdd_writing (bytes : List Char) (front : List (Option Char))
    (room : Nat) (z : Scratch)
    (at_front : front.length = z.string + z.stringLength) :
    stringAdd false bytes
        (writing window before later parent alloc
          (front ++ List.replicate (bytes.length + room) none) z) =
      some
        (writing window before later parent alloc
          (front ++ bytes.map some ++ List.replicate room none)
          { z with stringLength := z.stringLength + bytes.length }) := by
  induction bytes generalizing front z with
  | nil =>
      rw [List.length_nil, Nat.zero_add, List.map_nil, List.append_nil]
      rfl
  | cons b bytes ih =>
      have stored :=
        storeAt_writing isWindow before later parent alloc front
          (bytes.length + room) b
          { z with stringLength := z.stringLength + 1 }
      have next :=
        ih (front ++ [some b]) { z with stringLength := z.stringLength + 1 }
          (by simp only [List.length_append, List.length_singleton]; omega)
      rw [List.length_cons, Nat.add_right_comm]
      rw [at_front] at stored
      rw [stringAdd_second stored]
      simpa [Nat.add_assoc, Nat.add_comm 1] using next

/-- The second pass stores the bytes one behind the other. -/
theorem addBytes_writing (bytes : List Char) (front : List (Option Char))
    (room : Nat) (z : Scratch)
    (at_front : front.length = z.string + z.stringLength) (i : List Char) :
    addBytes false bytes
        (writing window before later parent alloc
          (front ++ List.replicate (bytes.length + room) none) z) i =
      .next
        (writing window before later parent alloc
          (front ++ bytes.map some ++ List.replicate room none)
          { z with stringLength := z.stringLength + bytes.length }) i := by
  rw [addBytes, stringAdd_writing isWindow before later parent alloc bytes
    front room z at_front]

/-- Iterations that write some bytes of a string. -/
theorem leads_chunk (chunk bytes : List Char) (front : List (Option Char))
    (room : Nat) (z : Scratch)
    (at_front : front.length = z.string + z.stringLength)
    {i i' : List Char} {outcome : Iteration}
    (adds : ∀ values,
      Leads doubles false (inside values (some before.length) alloc false z) i
        (addBytes false chunk
          (inside values (some before.length) alloc false z) i'))
    (more :
      Leads doubles false
        (writing window before later parent alloc
          (front ++ chunk.map some ++
            List.replicate (bytes.length + room) none)
          { z with stringLength := z.stringLength + chunk.length }) i'
        outcome) :
    Leads doubles false
      (writing window before later parent alloc
        (front ++ List.replicate ((chunk ++ bytes).length + room) none) z) i
      outcome := by
  have added := adds (before ++
    ⟨parent, window
      (front ++ List.replicate (chunk.length + (bytes.length + room)) none)⟩ ::
        later)
  rw [addBytes_writing isWindow before later parent alloc chunk front
    (bytes.length + room) z at_front i'] at added
  rw [List.length_append, Nat.add_assoc]
  exact added.trans more

/-- The bytes of a string are written up to its closing quote. -/
theorem leads_written_bytes {i bytes rest : List Char}
    (characters : Characters i bytes rest) (front : List (Option Char))
    (room : Nat) (z : Scratch)
    (at_front : front.length = z.string + z.stringLength)
    (bounded : z.stringLength + i.length ≤ uintMax) :
    Leads doubles false
      (writing window before later parent alloc
        (front ++ List.replicate (bytes.length + room) none) z) i
      (closeString false
        (writing window before later parent alloc
          (front ++ bytes.map some ++ List.replicate room none)
          { z with stringLength := z.stringLength + bytes.length })
        rest) := by
  induction characters generalizing front z with
  | close rest =>
      refine .last ?_
      rw [List.length_nil, Nat.zero_add, List.map_nil, List.append_nil]
      exact step_quote (Nat.le_of_add_right_le bounded) rest
  | @plain b visible unescaped unquoted i bytes rest _ ih =>
      have short := Nat.le_of_add_right_le bounded
      rw [List.length_cons] at bounded
      refine leads_chunk isWindow before later parent alloc [b] bytes front
        room z at_front
        (fun values => .last (step_plain short visible unescaped unquoted i)) ?_
      have more := ih (front ++ [some b])
        { z with stringLength := z.stringLength + 1 }
        (by simp only [List.length_append, List.length_singleton]; omega)
        (by simp only; omega)
      simpa [Nat.add_assoc, Nat.add_comm 1] using more
  | @escape b visible other i bytes rest _ ih =>
      have short := Nat.le_of_add_right_le bounded
      simp only [List.length_cons] at bounded
      refine leads_chunk isWindow before later parent alloc [unescape b] bytes
        front room z at_front
        (fun values => .more (step_backslash short _)
          (.last (step_escaped short visible other i))) ?_
      have more := ih (front ++ [some (unescape b)])
        { z with stringLength := z.stringLength + 1 }
        (by simp only [List.length_append, List.length_singleton]; omega)
        (by simp only; omega)
      simpa [Nat.add_assoc, Nat.add_comm 1] using more
  | @unicode code digits i bytes rest read _ ih =>
      have short := Nat.le_of_add_right_le bounded
      have digitsLength := readUnicode_length read
      have codeLength := length_encode_le code
      simp only [List.length_cons] at bounded
      refine leads_chunk isWindow before later parent alloc (encode code) bytes
        front room z at_front
        (fun values => .more (step_backslash short _)
          (.last (step_unicode short read))) ?_
      have more := ih (front ++ (encode code).map some)
        { z with stringLength := z.stringLength + (encode code).length }
        (by simp only [List.length_append, List.length_map]; omega)
        (by simp only; omega)
      simpa [Nat.add_assoc] using more

end Bytes

/-! ## Closing quotes -/

section Quotes

variable (before later : List JsonValue) (parent : Option Nat) (alloc : Nat)
variable (z : Scratch) (i : List Char)

/-- A string is left once its terminator is stored. -/
theorem closeString_of_stored {s s' : State} {i : List Char}
    (stored :
      storeAt s (s.scratch.string + s.scratch.stringLength) terminator =
        some s') :
    closeString false s i = leaveString false s' i := by
  simp only [closeString, stored, Bool.false_eq_true, if_false]

/-- A string that is a value has been filled. -/
theorem closeString_filled (text : List Char) (length : Nat)
    (start : z.string = 0) (read : z.stringLength = text.length) :
    closeString false
        (writing (fun cells => .string ⟨length, cells⟩) before later parent
          alloc (text.map some ++ List.replicate 1 none) z) i =
      finish false
        (complete
          (before ++ ⟨parent, .string ⟨text.length, written text⟩⟩ :: later)
          before.length alloc z) i := by
  have stored :=
    storeAt_writing (isWindow_string length) before later parent alloc
      (text.map some) 0 terminator z
  have offset : (text.map some).length = z.string + z.stringLength := by
    rw [start, read, List.length_map, Nat.zero_add]
  rw [Nat.zero_add, offset] at stored
  rw [closeString_of_stored stored]
  simp only [leaveString, inside_closed, topValue_outside, setTop_outside]
  rw [scratch_inside, read, written, List.map_append]
  rfl

/-- The terminator of a name is written, and its member gets it. -/
theorem closeString_named (text : List Char) (bytes : Nat)
    (done : List JsonMember) (more : List JsonMember)
    (names : List (Option Char)) (room : Nat)
    (start : z.string = names.length) (read : z.stringLength = text.length) :
    closeString false
        (writing
          (fun cells =>
            .object
              ⟨done.length, bytes, done ++ ⟨none, none, none⟩ :: more, cells,
                names.length⟩) before later parent alloc
          (names ++ text.map some ++ List.replicate (room + 1) none) z) i =
      .next
        (outside
          (before ++
            ⟨parent,
              .object
                ⟨done.length, bytes,
                  done ++ ⟨some names.length, some text.length, none⟩ :: more,
                  names ++ written text ++ List.replicate room none,
                  names.length + (text.length + 1)⟩⟩ :: later)
          (some before.length) alloc true false true z) i := by
  have stored :=
    storeAt_writing
      (isWindow_object done.length bytes
        (done ++ ⟨none, none, none⟩ :: more) names.length)
      before later parent alloc (names ++ text.map some) room terminator z
  have offset :
      (names ++ text.map some).length = z.string + z.stringLength := by
    rw [start, read, List.length_append, List.length_map]
  rw [offset] at stored
  rw [closeString_of_stored stored]
  simp only [leaveString, inside_closed, topValue_outside, closeName,
    getElem?_middle, set_middle, setTop_outside, Bool.false_eq_true, if_false]
  simp only [scratch_inside, read, written, List.map_append,
    List.append_assoc]
  rfl

end Quotes

/-! ## Values -/

section Values

variable {doubles : Doubles}

/-- An array of which some elements have been stored. -/
def partArray (stored : List Nat) (missing : Nat) : JsonData :=
  .array
    { length := stored.length
      values := stored.map some ++ List.replicate missing none }

/-- An object of which some members have been stored. -/
def partObject (bytes : Nat) (stored : List JsonMember)
    (names : List (Option Char)) (missing room : Nat) : JsonData :=
  .object
    { length := stored.length
      nameBytes := bytes
      values := stored ++ List.replicate missing ⟨none, none, none⟩
      names := names ++ List.replicate room none
      objectMem := names.length }

/-- What the second pass does with a phrase. -/
def Fills (doubles : Doubles) : Phrase → List Char → List Char → Prop
  | .value json, i, rest =>
      Delimited rest → 24 * i.length < 2 ^ 31 →
        ∀ (before later : List JsonValue) (parent top : Option Nat)
          (z : Scratch),
          ∃ z', Leads doubles false
            (outside (before ++ (measured parent before.length json ++ later))
              top before.length true false false z) i
            (finish false
              (complete
                (before ++ (filled parent before.length json ++ later))
                before.length (before.length + size json) z') rest)
  | .elements comma elements, i, rest =>
      24 * i.length < 2 ^ 31 →
        ∀ (before kids later : List JsonValue) (parent : Option Nat)
          (stored : List Nat) (z : Scratch),
          stored.length + i.length ≤ uintMax →
          ∃ z', Leads doubles false
            (outside
              (before ++ ⟨parent, partArray stored elements.length⟩ ::
                (kids ++ (layoutElements (fun _ => measure) before.length
                  (before.length + (kids.length + 1)) elements ++ later)))
              (some before.length) (before.length + (kids.length + 1)) true
              comma false z) i
            (finish false
              (complete
                (before ++
                  ⟨parent,
                    partArray
                      (stored ++ addresses
                        (before.length + (kids.length + 1)) elements) 0⟩ ::
                  (kids ++ (layoutElements fill before.length
                    (before.length + (kids.length + 1)) elements ++ later)))
                before.length
                (before.length + (kids.length + 1) + sizeElements elements)
                z') rest)
  | .members comma members, i, rest =>
      24 * i.length < 2 ^ 31 →
        ∀ (before kids later : List JsonValue) (parent : Option Nat)
          (bytes : Nat) (stored : List JsonMember)
          (names : List (Option Char)) (z : Scratch),
          stored.length + i.length ≤ uintMax →
          ∃ z', Leads doubles false
            (outside
              (before ++
                ⟨parent,
                  partObject bytes stored names members.length
                    (nameBytes members)⟩ ::
                (kids ++ (layoutMembers (fun _ => measure) before.length
                  (before.length + (kids.length + 1)) members ++ later)))
              (some before.length) (before.length + (kids.length + 1)) false
              comma false z) i
            (finish false
              (complete
                (before ++
                  ⟨parent,
                    partObject bytes
                      (stored ++ entries names.length
                        (before.length + (kids.length + 1)) members)
                      (names ++ nameBlock members) 0 0⟩ ::
                  (kids ++ (layoutMembers fill before.length
                    (before.length + (kids.length + 1)) members ++ later)))
                before.length
                (before.length + (kids.length + 1) + sizeMembers members)
                z') rest)

variable {i middle rest : List Char}

/-- The lengths of the passes do not overflow. -/
theorem short_of_fits (fits : 24 * i.length < 2 ^ 31) :
    i.length ≤ uintMax := by
  rw [uintMax]
  omega

/-- A blank in front changes nothing. -/
theorem fills_blank {b : Char} (isBlank : isWhitespace b = true)
    {phrase : Phrase} (more : Fills doubles phrase i rest) :
    Fills doubles phrase (b :: i) rest := by
  cases phrase with
  | value json =>
      intro delimited fits before later parent top z
      rw [List.length_cons] at fits
      obtain ⟨z', leads⟩ := more delimited (by omega) before later parent top z
      exact ⟨z', .more (step_blank isBlank i) leads⟩
  | elements comma elements =>
      intro fits before kids later parent stored z bounded
      rw [List.length_cons] at fits bounded
      obtain ⟨z', leads⟩ :=
        more (by omega) before kids later parent stored z (by omega)
      exact ⟨z', .more (step_blank isBlank i) leads⟩
  | members comma members =>
      intro fits before kids later parent bytes stored names z bounded
      rw [List.length_cons] at fits bounded
      obtain ⟨z', leads⟩ :=
        more (by omega) before kids later parent bytes stored names z
          (by omega)
      exact ⟨z', .more (step_between_blank _ _ _ _ _ _ _ _ isBlank) leads⟩

/-- A value that is filled when it is measured. -/
theorem fills_constant {json : Json} {word : List Char}
    (alone : ∀ parent base,
      measured parent base json = [⟨parent, measure json⟩])
    (same : ∀ parent base, filled parent base json = [⟨parent, measure json⟩])
    (one : size json = 1)
    (read : ∀ before later parent top z,
      step doubles false
          (outside (before ++ ⟨parent, measure json⟩ :: later) top
            before.length true false false z) (word ++ rest) =
        finish false
          (complete (before ++ ⟨parent, measure json⟩ :: later) before.length
            (before.length + 1) z) rest) :
    Fills doubles (.value json) (word ++ rest) rest := by
  intro _ _ before later parent top z
  rw [alone, same, one]
  exact ⟨z, .last (read before later parent top z)⟩

/-- The second pass over `null`. -/
theorem fills_null (rest : List Char) :
    Fills doubles (.value .null) ('n' :: 'u' :: 'l' :: 'l' :: rest) rest :=
  @fills_constant doubles rest .null ['n', 'u', 'l', 'l']
    (fun _ _ => by rw [measured, layout] <;> simp)
    (fun _ _ => by rw [filled, layout] <;> simp [fill, measure]) rfl
    fun before later parent top z => by
      simp [step, outside, seek, isWhitespace, beginValue, constant, newValue,
        reserve, measure]

/-- The second pass over `true`. -/
theorem fills_true (rest : List Char) :
    Fills doubles (.value (.boolean true)) ('t' :: 'r' :: 'u' :: 'e' :: rest)
      rest :=
  @fills_constant doubles rest (.boolean true) ['t', 'r', 'u', 'e']
    (fun _ _ => by rw [measured, layout] <;> simp)
    (fun _ _ => by rw [filled, layout] <;> simp [fill, measure]) rfl
    fun before later parent top z => by
      have stored :=
        setTop_outside before parent (.boolean true) later
          (before.length + 1) z false false false (.boolean true)
      simp only [outside] at stored
      simp [step, outside, seek, isWhitespace, beginValue, constantTrue,
        newValue, reserve, measure, stored]

/-- The second pass over `false`. -/
theorem fills_false (rest : List Char) :
    Fills doubles (.value (.boolean false))
      ('f' :: 'a' :: 'l' :: 's' :: 'e' :: rest) rest :=
  @fills_constant doubles rest (.boolean false) ['f', 'a', 'l', 's', 'e']
    (fun _ _ => by rw [measured, layout] <;> simp)
    (fun _ _ => by rw [filled, layout] <;> simp [fill, measure]) rfl
    fun before later parent top z => by
      simp [step, outside, seek, isWhitespace, beginValue, constant, newValue,
        reserve, measure]

/-- A number consists of the characters that may stand in numbers. -/
theorem Numeral.isNumeric_text (numeral : Numeral) :
    ∀ c ∈ numeral.text, isNumeric c = true := by
  intro c member
  simp only [Numeral.text, List.mem_append] at member
  rcases member with sign | whole | fraction | exponent
  · split at sign
    · rw [List.mem_singleton.mp sign]
      rfl
    · exact absurd sign List.not_mem_nil
  · exact isNumeric_of_isDigit (numeral.isDigits c whole)
  · cases shape : numeral.fraction with
    | none =>
        rw [shape] at fraction
        exact absurd fraction List.not_mem_nil
    | some digits =>
        rw [shape] at fraction
        rcases List.mem_cons.mp fraction with rfl | digit
        · rfl
        · exact isNumeric_of_isDigit (digits.isDigits c digit)
  · cases shape : numeral.exponent with
    | none =>
        rw [shape] at exponent
        exact absurd exponent List.not_mem_nil
    | some scale =>
        rw [shape] at exponent
        rcases List.mem_cons.mp exponent with rfl | member
        · rcases scale.mark_eq with mark | mark <;> rw [mark] <;> rfl
        · rcases List.mem_append.mp member with sign | digit
          · rcases scale.sign_eq c (Option.mem_toList.mp sign) with rfl | rfl
            · rfl
            · rfl
          · exact isNumeric_of_isDigit (scale.isDigits c digit)

/-- The second pass skips what the first has read as a number. -/
theorem skip_numeral {b : Char} {tail : List Char} (numeral : Numeral)
    (text : numeral.text = b :: tail) (delimited : Delimited rest) :
    (tail ++ rest).dropWhile isNumeric = rest := by
  have numeric : ∀ c ∈ tail, isNumeric c = true := fun c member =>
    numeral.isNumeric_text c (text ▸ List.mem_cons_of_mem b member)
  rw [List.dropWhile_append_of_pos numeric]
  cases rest with
  | nil => rfl
  | cons c rest =>
      rw [List.dropWhile_cons_of_neg (by simpa [Delimited] using delimited)]

/-- Nothing is reserved for a number. -/
theorem reserve_numeral (numeral : Numeral) :
    reserve (measure (numeral.value doubles)) =
      some (measure (numeral.value doubles)) := by
  obtain ⟨negative, whole, _, _, fraction, exponent, _⟩ := numeral
  cases fraction <;> cases exponent <;> rfl

/-- A number begins with a digit or a minus. -/
theorem Numeral.begins (numeral : Numeral) :
    ∃ b tail, numeral.text = b :: tail ∧ (b.isDigit = true ∨ b = '-') := by
  cases negative : numeral.negative with
  | true =>
      exact ⟨'-', _, by rw [Numeral.text, negative]; rfl, Or.inr rfl⟩
  | false =>
      have nonempty : numeral.whole ≠ [] := by
        rcases numeral.whole_ne_nil with nonempty | ⟨minus, _⟩
        · exact nonempty
        · exact absurd minus (by simp [negative])
      obtain ⟨b, tail, whole⟩ := List.exists_cons_of_ne_nil nonempty
      have isDigit := numeral.isDigits b (whole ▸ List.mem_cons_self)
      exact ⟨b, _, by rw [Numeral.text, negative, whole]; rfl, Or.inl isDigit⟩

/-- A number takes one value. -/
theorem filled_numeral (numeral : Numeral) (parent : Option Nat)
    (base : Nat) :
    filled parent base (numeral.value doubles) =
        [⟨parent, measure (numeral.value doubles)⟩] ∧
      size (numeral.value doubles) = 1 := by
  obtain ⟨negative, whole, _, _, fraction, exponent, _⟩ := numeral
  cases fraction <;> cases exponent <;> exact ⟨rfl, rfl⟩

/-- The second pass keeps the number that the first one has read. -/
theorem beginNumber_second (before later : List JsonValue)
    (parent top : Option Nat) {data : JsonData}
    (reserved : reserve data = some data) (b : Char) (z : Scratch)
    (i : List Char) :
    beginNumber false
        (outside (before ++ ⟨parent, data⟩ :: later) top before.length false
          false false z) b i =
      finish false
        (complete (before ++ ⟨parent, data⟩ :: later) before.length
          (before.length + 1) z) (i.dropWhile isNumeric) := by
  simp [beginNumber, newValue, outside, reserved]

/-- The second pass over a number. -/
theorem fills_number (numeral : Numeral) :
    Fills doubles (.value (numeral.value doubles)) (numeral.text ++ rest)
      rest := by
  intro delimited _ before later parent top z
  obtain ⟨b, tail, text, starts⟩ := numeral.begins
  rw [measured_numeral, (filled_numeral numeral parent _).1,
    (filled_numeral numeral parent before.length).2, text]
  have read :=
    beginNumber_second before later parent top
      (@reserve_numeral doubles numeral) b z (tail ++ rest)
  rw [skip_numeral numeral text delimited] at read
  refine ⟨z, .last (Eq.trans ?_ read)⟩
  rcases starts with isDigit | rfl
  · exact step_begin_digit isDigit _ top _ z _
  · exact step_begin_minus _ top _ z _

/-- The second pass over a string. -/
theorem fills_string {text : List Char}
    (characters : Characters i text rest) :
    Fills doubles (.value (.string text)) ('"' :: i) rest := by
  intro _ fits before later parent top z
  rw [List.length_cons] at fits
  have opened :
      step doubles false
          (outside
            (before ++ (measured parent before.length (.string text) ++ later))
            top before.length true false false z) ('"' :: i) =
        .next
          (writing (fun cells => .string ⟨0, cells⟩) before later parent
            (before.length + 1)
            ([] ++ List.replicate (text.length + 1) none)
            { z with string := 0, stringLength := 0 }) i := by
    simp [step, outside, seek, isWhitespace, beginValue, newValue, layout,
      measure, reserve, inside]
  have bytes :=
    @leads_written_bytes doubles _ (isWindow_string 0) before later parent
      (before.length + 1) _ _ _ characters [] 1
      { z with string := 0, stringLength := 0 } rfl
      (by rw [Nat.zero_add]; exact short_of_fits (by omega))
  simp only [List.nil_append] at bytes
  rw [closeString_filled before later parent _ _ rest text 0 rfl
    (Nat.zero_add _)] at bytes
  exact ⟨_, .more opened bytes⟩

/-- The second pass over an array, by that over its elements. -/
theorem fills_array {elements : List Json}
    (inside : Fills doubles (.elements false elements) i rest) :
    Fills doubles (.value (.array elements)) ('[' :: i) rest := by
  intro _ fits before later parent top z
  rw [List.length_cons] at fits
  have opened :
      step doubles false
          (outside
            (before ++ (measured parent before.length (.array elements) ++
              later)) top before.length true false false z) ('[' :: i) =
        .next
          (outside
            (before ++ ⟨parent, partArray [] elements.length⟩ ::
              (layoutElements (fun _ => measure) before.length
                (before.length + 1) elements ++ later)) (some before.length)
            (before.length + 1) true false false z) i := by
    simp [step, outside, seek, isWhitespace, beginValue, newValue, layout,
      measure, reserve, partArray]
  have short := short_of_fits (i := i) (by omega)
  obtain ⟨z', leads⟩ :=
    inside (by omega) before [] later parent [] z (by simpa using short)
  refine ⟨z', .more opened ?_⟩
  simpa [layout, fill, partArray, size, Nat.add_assoc] using leads

/-- The second pass over an object, by that over its members. -/
theorem fills_object {members : List (CString × Json)}
    (few : members.length ≤ i.length)
    (inside : Fills doubles (.members false members) i rest) :
    Fills doubles (.value (.object members)) ('{' :: i) rest := by
  intro _ fits before later parent top z
  rw [List.length_cons] at fits
  have few' : 24 * members.length < 2147483648 := by omega
  have opened :
      step doubles false
          (outside
            (before ++ (measured parent before.length (.object members) ++
              later)) top before.length true false false z) ('{' :: i) =
        .next
          (outside
            (before ++
              ⟨parent,
                partObject (nameBytes members) [] [] members.length
                  (nameBytes members)⟩ ::
              (layoutMembers (fun _ => measure) before.length
                (before.length + 1) members ++ later)) (some before.length)
            (before.length + 1) false false false z) i := by
    simp [step, outside, seek, isWhitespace, beginValue, newValue, layout,
      measure, reserve, partObject, few']
  have short := short_of_fits (i := i) (by omega)
  obtain ⟨z', leads⟩ :=
    inside (by omega) before [] later parent (nameBytes members) [] [] z
      (by simpa using short)
  refine ⟨z', .more opened ?_⟩
  simpa [layout, fill, partObject, size, Nat.add_assoc] using leads

/-- The end of an array. -/
theorem fills_noElements (comma : Bool) (rest : List Char) :
    Fills doubles (.elements comma []) (']' :: rest) rest := by
  intro _ before kids later parent stored z _
  refine ⟨z, .last ?_⟩
  rw [layoutElements, layoutElements, addresses, List.append_nil]
  exact step_close_array before _ parent _ _ comma z rest

/-- A comma between two elements. -/
theorem fills_elementComma {elements : List Json}
    (more : Fills doubles (.elements false elements) i rest) :
    Fills doubles (.elements true elements) (',' :: i) rest := by
  intro fits before kids later parent stored z bounded
  rw [List.length_cons] at fits bounded
  obtain ⟨z', leads⟩ :=
    more (by omega) before kids later parent stored z (by omega)
  exact ⟨z', .more (step_comma i) leads⟩

/-- The end of an object. -/
theorem fills_noMembers (comma : Bool) (rest : List Char) :
    Fills doubles (.members comma []) ('}' :: rest) rest := by
  intro _ before kids later parent bytes stored names z _
  refine ⟨z, .last ?_⟩
  rw [layoutMembers, layoutMembers, entries, nameBlock, List.flatMap_nil,
    List.append_nil, List.append_nil]
  exact step_between_close before _ parent _ _ comma z rest

/-- A comma between two members. -/
theorem fills_memberComma {members : List (CString × Json)}
    (more : Fills doubles (.members false members) i rest) :
    Fills doubles (.members true members) (',' :: i) rest := by
  intro fits before kids later parent bytes stored names z bounded
  rw [List.length_cons] at fits bounded
  obtain ⟨z', leads⟩ :=
    more (by omega) before kids later parent bytes stored names z (by omega)
  exact ⟨z', .more (step_between_comma before _ parent _ _ z i) leads⟩

/-- An element or the value of a member is stored in its parent. -/
theorem fills_child {json : Json}
    (first : Fills doubles (.value json) i middle)
    (delimited : Delimited middle) (fits : 24 * i.length < 2 ^ 31)
    (before kids later : List JsonValue) (parent : Option Nat)
    {data linked : JsonData} (z : Scratch)
    (links :
      data.link (before.length + (kids.length + 1)) = some linked)
    (bounded : linked.countUp.length ≤ uintMax) :
    ∃ z', Leads doubles false
      (outside
        (before ++ ⟨parent, data⟩ ::
          (kids ++ (measured (some before.length)
            (before.length + (kids.length + 1)) json ++ later)))
        (some before.length) (before.length + (kids.length + 1)) true false
        false z) i
      (.next
        (outside
          (before ++ ⟨parent, linked.countUp⟩ ::
            (kids ++ (filled (some before.length)
              (before.length + (kids.length + 1)) json ++ later)))
          (some before.length)
          (before.length + (kids.length + 1) + size json) data.isArray true
          false z') middle) := by
  obtain ⟨z', value⟩ :=
    first delimited fits (before ++ ⟨parent, data⟩ :: kids) later
      (some before.length) (some before.length) z
  obtain ⟨inner, laid⟩ := layout_eq_cons fill (some before.length)
    (before.length + (kids.length + 1)) json
  simp only [List.length_append, List.length_cons, List.append_assoc,
    List.cons_append, filled, laid] at value
  have counted :=
    @finish_child false before kids (inner ++ later) parent
      (fill (before.length + (kids.length + 1)) json)
      (before.length + (kids.length + 1) + size json) z' middle data linked
      (by simpa using links) bounded
  rw [counted] at value
  rw [filled, laid]
  exact ⟨z', value⟩

theorem link_partArray (stored : List Nat) (missing child : Nat) :
    ∃ linked, (partArray stored (missing + 1)).link child = some linked ∧
      linked.countUp = partArray (stored ++ [child]) missing := by
  refine ⟨.array ⟨stored.length,
    (stored ++ [child]).map some ++ List.replicate missing none⟩, ?_, ?_⟩
  · have inside : stored.length <
        (stored.map some ++ none :: List.replicate missing none).length := by
      simp
    have place := set_middle (stored.map some) none (some child)
      (List.replicate missing none)
    rw [List.length_map] at place
    simp only [partArray, JsonData.link, List.replicate_succ, inside, if_true,
      place, List.map_append, List.append_assoc]
    rfl
  · simp [JsonData.countUp, partArray]

theorem fills_element {json : Json} {elements : List Json}
    (shorter : middle.length < i.length) (delimited : Delimited middle)
    (first : Fills doubles (.value json) i middle)
    (more : Fills doubles (.elements true elements) middle rest) :
    Fills doubles (.elements false (json :: elements)) i rest := by
  intro fits before kids later parent stored z bounded
  obtain ⟨linked, links, counted⟩ :=
    link_partArray stored elements.length (before.length + (kids.length + 1))
  have few : linked.countUp.length ≤ uintMax := by
    rw [counted]
    simp only [partArray, JsonData.length, List.length_append,
      List.length_singleton]
    omega
  obtain ⟨z₁, value⟩ :=
    fills_child first delimited fits before kids
      (layoutElements (fun _ => measure) before.length
        (before.length + (kids.length + 1) + size json) elements ++ later)
      parent z links few
  obtain ⟨z₂, leads⟩ :=
    more (by omega) before
      (kids ++ filled (some before.length)
        (before.length + (kids.length + 1)) json) later parent
      (stored ++ [before.length + (kids.length + 1)]) z₁
      (by simp only [List.length_append, List.length_singleton]; omega)
  rw [index_behind, length_layout] at leads
  rw [counted] at value
  refine ⟨z₂, ?_⟩
  rw [layoutElements, layoutElements, length_layout, length_layout, addresses,
    sizeElements, List.append_assoc, List.append_assoc]
  simp only [List.append_assoc, Nat.add_assoc, List.singleton_append]
    at leads value ⊢
  exact value.trans leads

/-- An object with a member that has its name but not its value yet. -/
def namedObject (bytes : Nat) (stored : List JsonMember)
    (names : List (Option Char)) (name : CString) (missing room : Nat) :
    JsonData :=
  .object
    { length := stored.length
      nameBytes := bytes
      values :=
        stored ++ ⟨some names.length, some name.length, none⟩ ::
          List.replicate missing ⟨none, none, none⟩
      names := names ++ written name ++ List.replicate room none
      objectMem := names.length + (name.length + 1) }

theorem link_namedObject (bytes : Nat) (stored : List JsonMember)
    (names : List (Option Char)) (name : CString)
    (missing room child : Nat) :
    ∃ linked,
      (namedObject bytes stored names name missing room).link child =
          some linked ∧
        linked.countUp =
          partObject bytes
            (stored ++ [⟨some names.length, some name.length, some child⟩])
            (names ++ written name) missing room := by
  refine ⟨.object
    { length := stored.length
      nameBytes := bytes
      values :=
        stored ++ ⟨some names.length, some name.length, some child⟩ ::
          List.replicate missing ⟨none, none, none⟩
      names := names ++ written name ++ List.replicate room none
      objectMem := names.length + (name.length + 1) }, ?_, ?_⟩
  · simp only [namedObject, JsonData.link, getElem?_middle, set_middle]
  · simp [JsonData.countUp, partObject, written]

/-- A name is read into its place. -/
theorem leads_named {behind colon : List Char} {name : CString}
    (named : Characters i name behind)
    (blanks : Blanks behind (':' :: colon))
    (before later : List JsonValue) (parent : Option Nat) (alloc : Nat)
    (bytes : Nat) (stored : List JsonMember) (names : List (Option Char))
    (missing room : Nat) (z : Scratch) (short : i.length ≤ uintMax) :
    ∃ z', Leads doubles false
      (outside
        (before ++
          ⟨parent,
            partObject bytes stored names (missing + 1)
              (name.length + 1 + room)⟩ :: later)
        (some before.length) alloc false false false z) ('"' :: i)
      (.next
        (outside
          (before ++
            ⟨parent, namedObject bytes stored names name missing room⟩ ::
              later)
          (some before.length) alloc true false false z') colon) := by
  have opened :=
    @step_between_quote doubles false before later parent
      ⟨stored.length, bytes,
        stored ++ List.replicate (missing + 1) ⟨none, none, none⟩,
        names ++ List.replicate (name.length + 1 + room) none, names.length⟩
      alloc z i
  have read :=
    @leads_written_bytes doubles _
      (isWindow_object stored.length bytes
        (stored ++ ⟨none, none, none⟩ ::
          List.replicate missing ⟨none, none, none⟩) names.length)
      before later parent alloc _ _ _ named names (room + 1)
      { z with string := names.length, stringLength := 0 }
      (Nat.add_zero _).symm (by rw [Nat.zero_add]; exact short)
  rw [closeString_named before later parent alloc _ behind name bytes stored
    (List.replicate missing ⟨none, none, none⟩) names room rfl
    (Nat.zero_add _)] at read
  rw [Nat.add_comm room 1, ← Nat.add_assoc] at read
  rw [List.replicate_succ] at opened
  exact ⟨_, .more opened (read.trans
    (leads_blanks blanks (.last (step_colon colon))))⟩

theorem fills_member {behind colon : List Char} {name : CString}
    {json : Json} {members : List (CString × Json)}
    (named : Characters i name behind)
    (blanks : Blanks behind (':' :: colon))
    (shorter : middle.length < colon.length) (delimited : Delimited middle)
    (first : Fills doubles (.value json) colon middle)
    (more : Fills doubles (.members true members) middle rest) :
    Fills doubles (.members false ((name, json) :: members)) ('"' :: i)
      rest := by
  intro fits before kids later parent bytes stored names z bounded
  have nameLength := named.length_lt
  have colonLength := blanks.length_le
  simp only [List.length_cons] at fits bounded colonLength
  obtain ⟨z₁, reads⟩ :=
    @leads_named doubles _ _ _ _ named blanks before
      (kids ++ (measured (some before.length)
        (before.length + (kids.length + 1)) json ++
          (layoutMembers (fun _ => measure) before.length
            (before.length + (kids.length + 1) + size json) members ++ later)))
      parent (before.length + (kids.length + 1)) bytes stored names
      members.length (nameBytes members) z (short_of_fits (by omega))
  obtain ⟨linked, links, counted⟩ :=
    link_namedObject bytes stored names name members.length
      (nameBytes members) (before.length + (kids.length + 1))
  have few : linked.countUp.length ≤ uintMax := by
    rw [counted]
    simp only [partObject, JsonData.length, List.length_append,
      List.length_singleton]
    omega
  obtain ⟨z₂, value⟩ :=
    fills_child first delimited (by omega) before kids
      (layoutMembers (fun _ => measure) before.length
        (before.length + (kids.length + 1) + size json) members ++ later)
      parent z₁ links few
  obtain ⟨z₃, leads⟩ :=
    more (by omega) before
      (kids ++ filled (some before.length)
        (before.length + (kids.length + 1)) json) later parent bytes
      (stored ++ [⟨some names.length, some name.length,
        some (before.length + (kids.length + 1))⟩])
      (names ++ written name) z₂
      (by simp only [List.length_append, List.length_singleton]; omega)
  rw [index_behind, length_layout] at leads
  rw [counted] at value
  have behindName :
      (names ++ written name).length = names.length + (name.length + 1) := by
    simp [written]
  have total :
      nameBytes ((name, json) :: members) =
        name.length + 1 + nameBytes members := by
    rw [nameBytes, List.map_cons, List.sum_cons, nameBytes]
  have block :
      nameBlock ((name, json) :: members) =
        written name ++ nameBlock members := List.flatMap_cons
  refine ⟨z₃, ?_⟩
  rw [total, block, layoutMembers, layoutMembers, layoutMember, layoutMember,
    length_layout, length_layout, entries, sizeMembers, sizeMember]
  rw [behindName] at leads
  simp only [List.append_assoc, Nat.add_assoc, List.singleton_append]
    at reads leads value ⊢
  exact reads.trans (value.trans leads)

theorem Derives.length_members {phrase : Phrase}
    (derives : Derives doubles phrase i rest) :
    ∀ comma members, phrase = .members comma members →
      members.length ≤ i.length := by
  induction derives with
  | blank _ _ ih =>
      exact fun comma members same => Nat.le_succ_of_le (ih comma members same)
  | noMembers comma rest =>
      rintro _ _ ⟨⟩
      exact Nat.zero_le _
  | memberComma _ ih =>
      rintro _ _ ⟨⟩
      exact Nat.le_succ_of_le (ih false _ rfl)
  | member named blanks first _ _ ihMore =>
      rintro _ _ ⟨⟩
      have more := ihMore true _ rfl
      have nameLength := named.length_lt
      have colonLength := blanks.length_le
      have shorter := first.length_lt
      simp only [List.length_cons] at colonLength ⊢
      omega
  | _ => rintro _ _ ⟨⟩

theorem fills {phrase : Phrase} (derives : Derives doubles phrase i rest) :
    Fills doubles phrase i rest := by
  induction derives with
  | blank isBlank _ ih => exact fills_blank isBlank ih
  | null rest => exact fills_null rest
  | constantTrue rest => exact fills_true rest
  | constantFalse rest => exact fills_false rest
  | number numeral rest => exact fills_number numeral
  | string characters => exact fills_string characters
  | array _ ih => exact fills_array ih
  | object inside ih =>
      exact fills_object (inside.length_members _ _ rfl) ih
  | noElements comma rest => exact fills_noElements comma rest
  | elementComma _ ih => exact fills_elementComma ih
  | element first more ihFirst ihMore =>
      exact fills_element first.length_lt more.delimited_elements ihFirst
        ihMore
  | noMembers comma rest => exact fills_noMembers comma rest
  | memberComma _ ih => exact fills_memberComma ih
  | member named blanks first more ihFirst ihMore =>
      exact fills_member named blanks first.length_lt more.delimited_members
        ihFirst ihMore

end Values

/-- The second pass over a text leaves the values of the text, filled. -/
theorem secondPass_returns {doubles : Doubles} {value : Json}
    {i rest : List Char} (derives : Derives doubles (.value value) i rest)
    (trailing : Trailing rest) (fits : 24 * i.length < 2 ^ 31) :
    ∃ z, Rounds.Returns
      (fun rounds =>
        pass doubles false rounds (State.initial (measured none 0 value)) i)
      (.ended (behind (filled none 0 value) 0 (size value) z)) := by
  obtain ⟨z, leads⟩ :=
    fills derives trailing.delimited fits [] [] none none
      (State.initial []).scratch
  obtain ⟨inner, laid⟩ := layout_eq_cons fill none 0 value
  simp only [List.nil_append, List.append_nil, List.length_nil, Nat.zero_add,
    filled, laid] at leads
  rw [filled, laid]
  exact ⟨z, (leads.trans (leads_trailing trailing 0)).returns⟩

end YiimpStratum.Parse
