import YiimpStratum.Parse.Grammar

/-!
# Values laid out in memory

Both passes visit the values of a text in the order in which they begin.  What
a value is after a pass depends on the value and on its address only, so that
the memory of a pass is given by one function of the value that was read.
-/

namespace YiimpStratum.Parse

open YiimpStratum
open YiimpStratum.Util

/-! ## The order of the values -/

section Layout

variable (data : Nat → Json → JsonData)

mutual

/-- A value with this parent and this address, and the values inside it. -/
def layout (parent : Option Nat) (base : Nat) : Json → List JsonValue
  | .array elements =>
      { parent := parent, data := data base (.array elements) } ::
        layoutElements base (base + 1) elements
  | .object members =>
      { parent := parent, data := data base (.object members) } ::
        layoutMembers base (base + 1) members
  | json => [{ parent := parent, data := data base json }]

def layoutElements (parent base : Nat) : List Json → List JsonValue
  | [] => []
  | json :: elements =>
      let first := layout (some parent) base json
      first ++ layoutElements parent (base + first.length) elements

def layoutMembers (parent base : Nat) :
    List (CString × Json) → List JsonValue
  | [] => []
  | member :: members =>
      let first := layoutMember parent base member
      first ++ layoutMembers parent (base + first.length) members

def layoutMember (parent base : Nat) : CString × Json → List JsonValue
  | (_, json) => layout (some parent) base json

end

end Layout

mutual

/-- The number of values. -/
def size : Json → Nat
  | .array elements => 1 + sizeElements elements
  | .object members => 1 + sizeMembers members
  | _ => 1

def sizeElements : List Json → Nat
  | [] => 0
  | json :: elements => size json + sizeElements elements

def sizeMembers : List (CString × Json) → Nat
  | [] => 0
  | member :: members => sizeMember member + sizeMembers members

def sizeMember : CString × Json → Nat
  | (_, json) => size json

end

section Length

variable (data : Nat → Json → JsonData)

mutual

@[simp]
theorem length_layout (parent : Option Nat) (base : Nat) (json : Json) :
    (layout data parent base json).length = size json := by
  cases json with
  | array elements =>
      rw [layout, size, List.length_cons, length_layoutElements, Nat.add_comm]
  | object members =>
      rw [layout, size, List.length_cons, length_layoutMembers, Nat.add_comm]
  | integer value => rfl
  | double value => rfl
  | string text => rfl
  | boolean value => rfl
  | null => rfl

@[simp]
theorem length_layoutElements (parent base : Nat) (elements : List Json) :
    (layoutElements data parent base elements).length =
      sizeElements elements := by
  cases elements with
  | nil => rfl
  | cons json elements =>
      rw [layoutElements, sizeElements, List.length_append,
        length_layoutElements, length_layout]

@[simp]
theorem length_layoutMembers (parent base : Nat)
    (members : List (CString × Json)) :
    (layoutMembers data parent base members).length = sizeMembers members := by
  cases members with
  | nil => rfl
  | cons member members =>
      rw [layoutMembers, sizeMembers, List.length_append,
        length_layoutMembers, length_layoutMember]

theorem length_layoutMember (parent base : Nat) (member : CString × Json) :
    (layoutMember data parent base member).length = sizeMember member := by
  cases member with
  | mk name json => rw [layoutMember, sizeMember, length_layout]

end

end Length

/-! ## What each pass makes of a value -/

/-- The bytes of the names with their terminators. -/
def nameBytes (members : List (CString × Json)) : Nat :=
  (members.map fun member => member.1.length + 1).sum

/-- After the first pass a value is measured. -/
def measure : Json → JsonData
  | .object members =>
      .object
        { length := members.length
          nameBytes := nameBytes members
          values := []
          names := []
          objectMem := 0 }
  | .array elements => .array { length := elements.length, values := [] }
  | .integer value => .integer value
  | .double value => .double value
  | .string text => .string { length := text.length, ptr := [] }
  | .boolean value => .boolean value
  | .null => .null

/-- A text with its terminator, all written. -/
def written (text : List Char) : List (Option Char) :=
  (text ++ [terminator]).map some

/-- The addresses of elements that lie one behind the other. -/
def addresses (base : Nat) : List Json → List Nat
  | [] => []
  | json :: elements => base :: addresses (base + size json) elements

/-- The members with the places of their names and of their values. -/
def entries (name base : Nat) : List (CString × Json) → List JsonMember
  | [] => []
  | (text, json) :: members =>
      ⟨some name, some text.length, some base⟩ ::
        entries (name + (text.length + 1)) (base + size json) members

/-- The names, one behind the other. -/
def nameBlock (members : List (CString × Json)) : List (Option Char) :=
  members.flatMap fun member => written member.1

@[simp]
theorem length_addresses (base : Nat) (elements : List Json) :
    (addresses base elements).length = elements.length := by
  induction elements generalizing base with
  | nil => rfl
  | cons json elements ih => rw [addresses, List.length_cons, ih]; rfl

@[simp]
theorem length_entries (name base : Nat) (members : List (CString × Json)) :
    (entries name base members).length = members.length := by
  induction members generalizing name base with
  | nil => rfl
  | cons member members ih => rw [entries, List.length_cons, ih]; rfl

@[simp]
theorem length_nameBlock (members : List (CString × Json)) :
    (nameBlock members).length = nameBytes members := by
  simp [nameBlock, nameBytes, written, List.length_flatMap]

/-- After the second pass a value is filled. -/
def fill (base : Nat) : Json → JsonData
  | .object members =>
      .object
        { length := members.length
          nameBytes := nameBytes members
          values := entries 0 (base + 1) members
          names := nameBlock members
          objectMem := nameBytes members }
  | .array elements =>
      .array
        { length := elements.length
          values := (addresses (base + 1) elements).map some }
  | .integer value => .integer value
  | .double value => .double value
  | .string text => .string { length := text.length, ptr := written text }
  | .boolean value => .boolean value
  | .null => .null

/-- The memory after the first pass. -/
abbrev measured : Option Nat → Nat → Json → List JsonValue :=
  layout fun _ => measure

/-- The memory after the second pass. -/
abbrev filled : Option Nat → Nat → Json → List JsonValue :=
  layout fill

/-! ## Reading a value -/

/-- Cells that have all been written. -/
def contents {Cell : Type} : List (Option Cell) → Option (List Cell)
  | [] => some []
  | none :: _ => none
  | some cell :: cells => (contents cells).map (cell :: ·)

/-- The bytes of a text, behind which there is a terminator. -/
def readText (memory : List (Option Char)) (start length : Nat) :
    Option (List Char) :=
  if memory[start + length]? = some (some terminator) then
    contents ((memory.drop start).take length)
  else none

/-- The values at these addresses. -/
def readElements (read : Nat → Option Json) :
    List (Option Nat) → Option (List Json)
  | [] => some []
  | cell :: cells => do
      let json ← read (← cell)
      let elements ← readElements read cells
      return json :: elements

def readMembers (read : Nat → Option Json) (names : List (Option Char)) :
    List JsonMember → Option (List (CString × Json))
  | [] => some []
  | member :: rest => do
      let name ← readText names (← member.name) (← member.nameLength)
      let json ← read (← member.value)
      let members ← readMembers read names rest
      return (name, json) :: members

/-- The value at an address, with so many levels of values inside it. -/
def readValue (values : List JsonValue) : Nat → Nat → Option Json
  | 0, _ => none
  | levels + 1, address => do
      let value ← values[address]?
      match value.data with
      | .integer n => some (.integer n)
      | .double d => some (.double d)
      | .boolean b => some (.boolean b)
      | .null => some .null
      | .string s => (readText s.ptr 0 s.length).map .string
      | .array a =>
          (readElements (readValue values levels) (a.values.take a.length)).map
            .array
      | .object o =>
          (readMembers (readValue values levels) o.names
            (o.values.take o.length)).map .object

end YiimpStratum.Parse
