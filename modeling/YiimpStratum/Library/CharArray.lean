import Mathlib.Data.List.Basic

/-!
# Arrays of characters

The character array of C: a fixed number of cells, of which a string is what
stands before the first terminator.  The copying functions of the C library
write some cells and leave the others, so what they leave may become part of a
string.  What is written past the end is lost.

The string of an array after a terminator has been written is the string
before it, cut at that place.
-/

namespace YiimpStratum

/-- The character that ends a string. -/
def terminator : Char :=
  Char.ofNat 0

/-- What stands before the first terminator. -/
def textOf (cells : List Char) : List Char :=
  cells.takeWhile (· != terminator)

theorem textOf_set (cells : List Char) (index : Nat) :
    textOf (cells.set index terminator) = (textOf cells).take index := by
  induction cells generalizing index with
  | nil =>
      rw [List.set_nil, textOf, List.takeWhile_nil, List.take_nil]
  | cons cell cells ih =>
      cases index with
      | zero =>
          rfl
      | succ index =>
          rw [List.set_cons_succ, textOf, textOf, List.takeWhile_cons,
            List.takeWhile_cons]
          split
          · rw [List.take_succ_cons]
            exact congrArg (cell :: ·) (ih index)
          · rw [List.take_nil]

/-- What stands before the first character that `stops`. -/
theorem takeWhile_of_findIdx?_some {text : List Char} {stops : Char → Bool}
    {index : Nat} (found : text.findIdx? stops = some index) :
    text.takeWhile (! stops ·) = text.take index := by
  rw [List.takeWhile_eq_take_findIdx_not]
  simp only [Bool.not_not]
  rw [(List.findIdx?_eq_some_iff_findIdx_eq.mp found).2]

theorem takeWhile_of_findIdx?_none {text : List Char} {stops : Char → Bool}
    (missing : text.findIdx? stops = none) :
    text.takeWhile (! stops ·) = text := by
  rw [List.takeWhile_eq_take_findIdx_not]
  simp only [Bool.not_not]
  rw [List.findIdx_eq_length_of_false (List.findIdx?_eq_none_iff.mp missing),
    List.take_length]

theorem not_stops_of_mem_takeWhile {text : List Char} {stops : Char → Bool}
    {c : Char} (member : c ∈ text.takeWhile (! stops ·)) :
    stops c = false := by
  have kept := List.all_eq_true.mp List.all_takeWhile c member
  rw [Bool.not_eq_true'] at kept
  exact kept

theorem ne_terminator_of_mem_textOf {cells : List Char} {c : Char}
    (member : c ∈ textOf cells) : c ≠ terminator :=
  bne_iff_ne.mp (List.all_eq_true.mp List.all_takeWhile c member)

/-- An array of `size` characters. -/
structure CharArray (size : Nat) where
  cells : List Char
  length_cells : cells.length = size

namespace CharArray

variable {size : Nat}

/-- The string that the array holds. -/
def text (array : CharArray size) : List Char :=
  textOf array.cells

/-- The array after `memset` with zero. -/
def zero : CharArray size where
  cells := List.replicate size terminator
  length_cells := List.length_replicate

/-- A terminator written at one place. -/
def cut (array : CharArray size) (index : Nat) : CharArray size where
  cells := array.cells.set index terminator
  length_cells := by
    rw [List.length_set]
    exact array.length_cells

/-- The first cells replaced by `written`. -/
def overwrite (array : CharArray size) (written : List Char) :
    CharArray size where
  cells := (written ++ array.cells.drop written.length).take size
  length_cells := by
    rw [List.length_take, List.length_append, List.length_drop,
      array.length_cells]
    omega

/--
`strncpy`: the rest of the `count` cells is filled with terminators, and there
is none when the source is not shorter than `count`.
-/
def strncpy (array : CharArray size) (source : List Char) (count : Nat) :
    CharArray size :=
  array.overwrite
    (source.take count ++
      List.replicate (count - source.length) terminator)

/-- `strcpy` -/
def strcpy (array : CharArray size) (source : List Char) : CharArray size :=
  array.overwrite (source ++ [terminator])

/-- `strcat` -/
def strcat (array : CharArray size) (source : List Char) : CharArray size :=
  array.strcpy (array.text ++ source)

/-- The string cut at the first character that `stops`, if there is one. -/
def cutFirst (array : CharArray size) (stops : Char → Bool) : CharArray size :=
  match array.text.findIdx? stops with
  | some index => array.cut index
  | none => array

@[simp]
theorem text_cut (array : CharArray size) (index : Nat) :
    (array.cut index).text = array.text.take index :=
  textOf_set array.cells index

@[simp]
theorem text_cutFirst (array : CharArray size) (stops : Char → Bool) :
    (array.cutFirst stops).text = array.text.takeWhile (! stops ·) := by
  rw [cutFirst]
  cases found : array.text.findIdx? stops with
  | some index =>
      rw [text_cut, takeWhile_of_findIdx?_some found]
  | none =>
      rw [takeWhile_of_findIdx?_none found]

theorem mem_text {array : CharArray size} {c : Char}
    (member : c ∈ array.text) : c ∈ array.cells ∧ c ≠ terminator := by
  constructor
  · exact List.takeWhile_subset _ member
  · exact ne_terminator_of_mem_textOf member

/-- A copy into a zeroed array holds characters of the source only. -/
theorem mem_of_mem_strncpy_zero {source : List Char} {count : Nat} {c : Char}
    (member : c ∈ ((zero : CharArray size).strncpy source count).text) :
    c ∈ source := by
  obtain ⟨stored, visible⟩ := mem_text member
  have written := List.mem_of_mem_take stored
  rw [List.append_assoc, List.mem_append, List.mem_append] at written
  rcases written with copied | filled | zeroed
  · exact List.mem_of_mem_take copied
  · exact absurd (List.eq_of_mem_replicate filled) visible
  · exact absurd (List.eq_of_mem_replicate (List.mem_of_mem_drop zeroed))
      visible

/-- No character of the string is one at which it was cut. -/
theorem not_stops_of_mem_cutFirst {array : CharArray size}
    {stops : Char → Bool} {c : Char}
    (member : c ∈ (array.cutFirst stops).text) : stops c = false := by
  rw [text_cutFirst] at member
  exact not_stops_of_mem_takeWhile member

end CharArray

end YiimpStratum
