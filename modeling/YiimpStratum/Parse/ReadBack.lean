import YiimpStratum.Parse.Moves

/-!
# Reading the values back

The memory of the second pass holds the value from which it was filled: who
reads it from the root finds all of it again.
-/

namespace YiimpStratum.Parse

open YiimpStratum
open YiimpStratum.Util

theorem contents_map_some {Cell : Type} (cells : List Cell) :
    contents (cells.map some) = some cells := by
  induction cells with
  | nil => rfl
  | cons cell cells ih => rw [List.map_cons, contents, ih]; rfl

/-- A text among other texts is read where it begins. -/
theorem readText_written (front behind : List (Option Char))
    (text : List Char) :
    readText (front ++ (written text ++ behind)) front.length text.length =
      some text := by
  have place :
      (front ++ (written text ++ behind))[front.length + text.length]? =
        some (some terminator) := by
    simp [written]
  have inside :
      ((front ++ (written text ++ behind)).drop front.length).take
        text.length = text.map some := by
    simp [written]
  rw [readText, if_pos place, inside, contents_map_some]

theorem size_pos (json : Json) : 0 < size json := by
  cases json <;> simp [size]

/-- A value without values inside it. -/
theorem readValue_leaf (before later : List JsonValue) (parent : Option Nat)
    {json : Json} {levels : Nat} (deep : size json ≤ levels)
    (leaf : ∀ base, filled parent base json = [⟨parent, fill base json⟩])
    (read : ∀ values levels address,
      values[address]? = some ⟨parent, fill address json⟩ →
        readValue values (levels + 1) address = some json) :
    readValue (before ++ (filled parent before.length json ++ later)) levels
      before.length = some json := by
  obtain ⟨level, rfl⟩ :=
    Nat.exists_eq_add_of_le' (Nat.lt_of_lt_of_le (size_pos json) deep)
  rw [leaf]
  exact read _ level _ (getElem?_middle before _ later)

section Containers

variable {values : List JsonValue} {level address : Nat}
variable {parent : Option Nat}

theorem readValue_array {cells : List (Option Nat)} {elements : List Json}
    (found :
      values[address]? = some ⟨parent, .array ⟨cells.length, cells⟩⟩)
    (read : readElements (readValue values level) cells = some elements) :
    readValue values (level + 1) address = some (.array elements) := by
  rw [readValue, found]
  simp only [Option.bind_eq_bind, Option.bind_some, List.take_length, read]
  rfl

theorem readValue_object {bytes objectMem : Nat} {cells : List JsonMember}
    {names : List (Option Char)} {members : List (CString × Json)}
    (found :
      values[address]? =
        some ⟨parent, .object ⟨cells.length, bytes, cells, names, objectMem⟩⟩)
    (read : readMembers (readValue values level) names cells = some members) :
    readValue values (level + 1) address = some (.object members) := by
  rw [readValue, found]
  simp only [Option.bind_eq_bind, Option.bind_some, List.take_length, read]
  rfl

end Containers

mutual

/-- What was filled is read back, however many values stand around it. -/
theorem readValue_filled (json : Json) (before later : List JsonValue)
    (parent : Option Nat) {levels : Nat} (deep : size json ≤ levels) :
    readValue (before ++ (filled parent before.length json ++ later)) levels
      before.length = some json := by
  cases json with
  | array elements =>
      rw [size, Nat.add_comm] at deep
      obtain ⟨level, rfl⟩ :=
        Nat.exists_eq_add_of_le' (Nat.lt_of_lt_of_le (Nat.succ_pos _) deep)
      have inner :=
        readElements_filled elements
          (before ++ [⟨parent, fill before.length (.array elements)⟩]) later
          before.length (Nat.le_of_succ_le_succ deep)
      simp only [List.length_append, List.length_singleton, List.append_assoc,
        List.singleton_append] at inner
      rw [filled, layout, List.cons_append]
      refine @readValue_array _ _ _ parent _ _ ?_ inner
      rw [getElem?_middle, List.length_map, length_addresses]
      rfl
  | object members =>
      rw [size, Nat.add_comm] at deep
      obtain ⟨level, rfl⟩ :=
        Nat.exists_eq_add_of_le' (Nat.lt_of_lt_of_le (Nat.succ_pos _) deep)
      have inner :=
        readMembers_filled members
          (before ++ [⟨parent, fill before.length (.object members)⟩]) later
          [] before.length (Nat.le_of_succ_le_succ deep)
      simp only [List.length_append, List.length_singleton, List.append_assoc,
        List.singleton_append, List.nil_append, List.length_nil] at inner
      rw [filled, layout, List.cons_append]
      refine @readValue_object _ _ _ parent (nameBytes members)
        (nameBytes members) _ _ _ ?_ inner
      rw [getElem?_middle, length_entries]
      rfl
  | integer value =>
      exact readValue_leaf before later parent deep
        (fun _ => by rw [filled, layout] <;> simp)
        fun values level address found => by rw [readValue, found]; rfl
  | double value =>
      exact readValue_leaf before later parent deep
        (fun _ => by rw [filled, layout] <;> simp)
        fun values level address found => by rw [readValue, found]; rfl
  | string text =>
      refine readValue_leaf before later parent deep
        (fun _ => by rw [filled, layout] <;> simp)
        fun values level address found => ?_
      have read := readText_written [] [] text
      rw [List.nil_append, List.append_nil] at read
      rw [readValue, found]
      exact congrArg (Option.map Json.string) read
  | boolean value =>
      exact readValue_leaf before later parent deep
        (fun _ => by rw [filled, layout] <;> simp)
        fun values level address found => by rw [readValue, found]; rfl
  | null =>
      exact readValue_leaf before later parent deep
        (fun _ => by rw [filled, layout] <;> simp)
        fun values level address found => by rw [readValue, found]; rfl

theorem readElements_filled (elements : List Json)
    (before later : List JsonValue) (parent : Nat) {levels : Nat}
    (deep : sizeElements elements ≤ levels) :
    readElements
        (readValue
          (before ++ (layoutElements fill parent before.length elements ++
            later)) levels)
        ((addresses before.length elements).map some) = some elements := by
  cases elements with
  | nil => rfl
  | cons json elements =>
      rw [sizeElements] at deep
      have first :=
        readValue_filled json before
          (layoutElements fill parent (before.length + size json) elements ++
            later) (some parent) (show size json ≤ levels by omega)
      have rest :=
        readElements_filled elements
          (before ++ filled (some parent) before.length json) later parent
          (show sizeElements elements ≤ levels by omega)
      rw [List.length_append, length_layout] at rest
      simp only [List.append_assoc] at rest
      rw [layoutElements, length_layout, List.append_assoc, addresses,
        List.map_cons, readElements]
      simp [first, rest]

theorem readMembers_filled (members : List (CString × Json))
    (before later : List JsonValue) (front : List (Option Char))
    (parent : Nat) {levels : Nat} (deep : sizeMembers members ≤ levels) :
    readMembers
        (readValue
          (before ++ (layoutMembers fill parent before.length members ++
            later)) levels)
        (front ++ nameBlock members)
        (entries front.length before.length members) = some members := by
  cases members with
  | nil => rfl
  | cons member members =>
      obtain ⟨name, json⟩ := member
      rw [sizeMembers, sizeMember] at deep
      have block :
          nameBlock ((name, json) :: members) =
            written name ++ nameBlock members := List.flatMap_cons
      have first :=
        readValue_filled json before
          (layoutMembers fill parent (before.length + size json) members ++
            later) (some parent) (show size json ≤ levels by omega)
      have rest :=
        readMembers_filled members
          (before ++ filled (some parent) before.length json) later
          (front ++ written name) parent
          (show sizeMembers members ≤ levels by omega)
      have behindName :
          (front ++ written name).length =
            front.length + (name.length + 1) := by
        simp [written]
      rw [List.length_append, length_layout, behindName] at rest
      simp only [List.append_assoc] at rest
      rw [layoutMembers, layoutMember, length_layout, List.append_assoc,
        entries, block, readMembers]
      simp [first, rest, readText_written]

end

end YiimpStratum.Parse
