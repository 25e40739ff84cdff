/-!
# Shared objects

`object.cpp`: the header that jobs, shares and clients have in common, the
search for an object by its number, and the pass that frees the deleted
objects of a list.
-/

namespace YiimpStratum

universe level

/-- `YAAMP_OBJECT` -/
structure YaampObject where
  id : Nat
  lockCount : Int
  unlock : Bool
  deleted : Bool
  deriving DecidableEq

namespace YaampObject

/-- The object after the `memset` that follows its allocation. -/
def zeroed : YaampObject where
  id := 0
  lockCount := 0
  unlock := false
  deleted := false

/-- `object_delete` -/
def delete (object : YaampObject) : YaampObject :=
  { object with deleted := true }

/-- `object_lock` -/
def objectLock (object : YaampObject) : YaampObject :=
  { object with lockCount := object.lockCount + 1 }

/-- `object_unlock` -/
def objectUnlock (object : YaampObject) : YaampObject :=
  { object with lockCount := object.lockCount - 1 }

/-- The condition under which `object_prune` frees an object. -/
def prunable (object : YaampObject) : Bool :=
  object.deleted && object.lockCount == 0

/-- What `object_prune` does to an object that it keeps. -/
def release (object : YaampObject) : YaampObject :=
  if object.lockCount ≠ 0 ∧ object.unlock = true then
    { object with lockCount := object.lockCount - 1 }
  else
    object

@[simp]
theorem release_id (object : YaampObject) : object.release.id = object.id := by
  rw [release]
  split <;> rfl

@[simp]
theorem release_deleted (object : YaampObject) :
    object.release.deleted = object.deleted := by
  rw [release]
  split <;> rfl

end YaampObject

/-! ## Lists of objects -/

section Lists

variable {Item : Type level}
variable (header : Item → YaampObject)
variable (setHeader : YaampObject → Item → Item)

/-- `object_find` -/
def objectFind (list : List Item) (id : Nat) : Option Item :=
  list.find? fun item => (header item).id == id

/-- One iteration of `object_prune`: `none` when the object is freed. -/
def pruneStep (item : Item) : Option Item :=
  if (header item).prunable then none
  else some (setHeader (header item).release item)

/-- `object_prune` -/
def objectPrune (list : List Item) : List Item :=
  list.filterMap (pruneStep header setHeader)

variable {header setHeader}

theorem objectFind_eq_some
    {list : List Item} {id : Nat} {item : Item}
    (found : objectFind header list id = some item) :
    item ∈ list ∧ (header item).id = id := by
  refine ⟨List.mem_of_find?_eq_some found, ?_⟩
  simpa using List.find?_some found

theorem objectFind_isSome_iff {list : List Item} {id : Nat} :
    (objectFind header list id).isSome ↔
      ∃ item ∈ list, (header item).id = id := by
  rw [objectFind, List.find?_isSome]
  simp

/-- The survivors of a pass, with their headers released. -/
theorem mem_objectPrune {list : List Item} {item : Item} :
    item ∈ objectPrune header setHeader list ↔
      ∃ old ∈ list, (header old).prunable = false ∧
        setHeader (header old).release old = item := by
  rw [objectPrune, List.mem_filterMap]
  constructor
  · rintro ⟨old, listed, kept⟩
    refine ⟨old, listed, ?_⟩
    rw [pruneStep] at kept
    split at kept
    · exact absurd kept (by simp)
    · rename_i alive
      exact ⟨by simpa using alive, Option.some.inj kept⟩
  · rintro ⟨old, listed, alive, rfl⟩
    exact ⟨old, listed, by rw [pruneStep, if_neg (by simp [alive])]⟩

/-- A pass keeps the order and the numbers of the objects that it keeps. -/
theorem ids_objectPrune_sublist
    (readsBack : ∀ object item, header (setHeader object item) = object)
    (list : List Item) :
    ((objectPrune header setHeader list).map fun item =>
        (header item).id).Sublist
      (list.map fun item => (header item).id) := by
  rw [objectPrune]
  induction list with
  | nil =>
      exact List.Sublist.slnil
  | cons item list ih =>
      rw [List.filterMap_cons, List.map_cons]
      split
      · exact ih.cons _
      · rename_i kept isKept
        rw [pruneStep] at isKept
        split at isKept
        · exact absurd isKept (by simp)
        · rw [← Option.some.inj isKept, List.map_cons, readsBack,
            YaampObject.release_id]
          exact ih.cons_cons _

end Lists

end YiimpStratum
