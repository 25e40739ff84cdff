import Mathlib.Data.List.Nodup
import Mathlib.Logic.Function.Basic

/-!
# Doubly linked cells

A heap of cells with the addresses of their two neighbours, where 0 is no
address.  A list of cells is linked when each one has the addresses of those
next to it; then the two fields, followed from the two ends, visit the same
cells in opposite orders.

A list changes by stores into the last cell of what is before a place and
into the first cell of what is behind it.  Each of the two leaves the other
cells alone.
-/

namespace YiimpStratum.DoublyLinked

universe dataLevel

variable {Data : Type dataLevel}

/-! ## Cells -/

/-- A cell; an address 0 is that of no neighbour. -/
structure Cell (Data : Type dataLevel) where
  data : Data
  prev : Nat
  next : Nat
  deriving DecidableEq

/-- The cells that are allocated. -/
abbrev Heap (Data : Type dataLevel) :=
  Nat → Option (Cell Data)

/-- The address of the first cell, if there is one. -/
def headAddress (nodes : List (Nat × Data)) (next : Nat) : Nat :=
  match nodes with
  | [] => next
  | node :: _ => node.1

/-- The address of the last cell, if there is one. -/
def lastAddress (prev : Nat) : List (Nat × Data) → Nat
  | [] => prev
  | node :: rest => lastAddress node.1 rest

def addresses (nodes : List (Nat × Data)) : List Nat :=
  nodes.map Prod.fst

/-- Every cell has the address of the one before it and of the one behind. -/
def Linked (heap : Heap Data) (prev : Nat) :
    List (Nat × Data) → Nat → Prop
  | [], _ => True
  | node :: rest, next =>
      node.1 ≠ 0 ∧
        heap node.1 = some ⟨node.2, prev, headAddress rest next⟩ ∧
          Linked heap node.1 rest next

/-- Following a field from an address visits the cells, up to another one. -/
def Path (field : Cell Data → Nat) (heap : Heap Data) (start : Nat) :
    List (Nat × Data) → Nat → Prop
  | [], stop => start = stop
  | node :: rest, stop =>
      start = node.1 ∧ node.1 ≠ 0 ∧
        ∃ cell, heap node.1 = some cell ∧ cell.data = node.2 ∧
          Path field heap (field cell) rest stop

/-! ## Addresses -/

@[simp]
theorem addresses_append (left right : List (Nat × Data)) :
    addresses (left ++ right) = addresses left ++ addresses right :=
  List.map_append

@[simp]
theorem addresses_cons (node : Nat × Data) (rest : List (Nat × Data)) :
    addresses (node :: rest) = node.1 :: addresses rest :=
  rfl

@[simp]
theorem headAddress_cons (node : Nat × Data) (rest : List (Nat × Data))
    (next : Nat) : headAddress (node :: rest) next = node.1 :=
  rfl

@[simp]
theorem headAddress_append (left right : List (Nat × Data)) (next : Nat) :
    headAddress (left ++ right) next =
      headAddress left (headAddress right next) := by
  cases left with
  | nil => rfl
  | cons node rest => rfl

@[simp]
theorem lastAddress_append (prev : Nat) (left right : List (Nat × Data)) :
    lastAddress prev (left ++ right) =
      lastAddress (lastAddress prev left) right := by
  induction left generalizing prev with
  | nil => rfl
  | cons node rest ih => exact ih node.1

theorem headAddress_mem {nodes : List (Nat × Data)} {next : Nat}
    (nonempty : nodes ≠ []) : headAddress nodes next ∈ addresses nodes := by
  cases nodes with
  | nil => exact absurd rfl nonempty
  | cons node rest => exact List.mem_cons_self

theorem lastAddress_mem {prev : Nat} {nodes : List (Nat × Data)}
    (nonempty : nodes ≠ []) : lastAddress prev nodes ∈ addresses nodes := by
  induction nodes generalizing prev with
  | nil => exact absurd rfl nonempty
  | cons node rest ih =>
      cases rest with
      | nil => exact List.mem_cons_self
      | cons other rest =>
          exact List.mem_cons_of_mem _ (@ih node.1 (List.cons_ne_nil _ _))

theorem headAddress_reverse (nodes : List (Nat × Data)) (next : Nat) :
    headAddress nodes.reverse next = lastAddress next nodes := by
  induction nodes generalizing next with
  | nil => rfl
  | cons node rest ih =>
      rw [List.reverse_cons, headAddress_append]
      exact ih node.1

/-- The last address of a sequence that is not empty is one of its own. -/
theorem lastAddress_congr {nodes : List (Nat × Data)} (nonempty : nodes ≠ [])
    (prev other : Nat) : lastAddress prev nodes = lastAddress other nodes := by
  cases nodes with
  | nil => exact absurd rfl nonempty
  | cons node rest => rfl

theorem headAddress_congr {nodes : List (Nat × Data)} (nonempty : nodes ≠ [])
    (next other : Nat) : headAddress nodes next = headAddress nodes other := by
  cases nodes with
  | nil => exact absurd rfl nonempty
  | cons node rest => rfl

/-- An address of no node is the last one only when there are no nodes. -/
theorem lastAddress_eq_iff {prev : Nat} {nodes : List (Nat × Data)}
    (outside : prev ∉ addresses nodes) :
    lastAddress prev nodes = prev ↔ nodes = [] := by
  constructor
  · intro same
    by_contra nonempty
    have inside := @lastAddress_mem _ prev nodes nonempty
    rw [same] at inside
    exact outside inside
  · rintro rfl
    rfl

theorem headAddress_eq_iff {nodes : List (Nat × Data)} {next : Nat}
    (outside : next ∉ addresses nodes) :
    headAddress nodes next = next ↔ nodes = [] := by
  constructor
  · intro same
    by_contra nonempty
    have inside := @headAddress_mem _ nodes next nonempty
    rw [same] at inside
    exact outside inside
  · rintro rfl
    rfl

/-- Another address in front is the last one only when there are no nodes. -/
theorem ite_lastAddress {nodes : List (Nat × Data)} {condition : Prop}
    [Decidable condition] (empty : condition ↔ nodes = []) (prev other : Nat) :
    (if condition then other else lastAddress prev nodes) =
      lastAddress other nodes := by
  by_cases holds : condition
  · rw [if_pos holds, empty.mp holds]
    rfl
  · rw [if_neg holds]
    exact lastAddress_congr (mt empty.mpr holds) prev other

/-- Another address behind is the first one only when there are no nodes. -/
theorem ite_headAddress {nodes : List (Nat × Data)} {condition : Prop}
    [Decidable condition] (empty : condition ↔ nodes = []) (next other : Nat) :
    (if condition then other else headAddress nodes next) =
      headAddress nodes other := by
  by_cases holds : condition
  · rw [if_pos holds, empty.mp holds]
    rfl
  · rw [if_neg holds]
    exact headAddress_congr (mt empty.mpr holds) next other

/-! ## Linked lists -/

theorem linked_append {heap : Heap Data} {prev next : Nat}
    {left right : List (Nat × Data)} :
    Linked heap prev (left ++ right) next ↔
      Linked heap prev left (headAddress right next) ∧
        Linked heap (lastAddress prev left) right next := by
  induction left generalizing prev with
  | nil => exact (iff_of_eq (true_and _)).symm
  | cons node rest ih =>
      rw [List.cons_append, Linked, Linked, lastAddress, ih,
        headAddress_append]
      simp only [and_assoc]

/-- Only the cells of the list matter. -/
theorem Linked.congr {heap heap' : Heap Data} {prev next : Nat}
    {nodes : List (Nat × Data)} (linked : Linked heap prev nodes next)
    (same : ∀ address ∈ addresses nodes, heap' address = heap address) :
    Linked heap' prev nodes next := by
  induction nodes generalizing prev with
  | nil => trivial
  | cons node rest ih =>
      obtain ⟨nonzero, cell, others⟩ := linked
      rw [addresses_cons, List.forall_mem_cons] at same
      exact ⟨nonzero, same.1.trans cell, ih others same.2⟩

theorem Linked.ne_zero {heap : Heap Data} {prev next : Nat}
    {nodes : List (Nat × Data)} (linked : Linked heap prev nodes next) :
    0 ∉ addresses nodes := by
  induction nodes generalizing prev with
  | nil => exact List.not_mem_nil
  | cons node rest ih =>
      obtain ⟨nonzero, -, others⟩ := linked
      rw [addresses_cons, List.mem_cons, not_or]
      exact ⟨nonzero.symm, ih others⟩

theorem Linked.allocated {heap : Heap Data} {prev next : Nat}
    {nodes : List (Nat × Data)} (linked : Linked heap prev nodes next)
    {address : Nat} (member : address ∈ addresses nodes) :
    heap address ≠ none := by
  induction nodes generalizing prev with
  | nil => exact absurd member List.not_mem_nil
  | cons node rest ih =>
      obtain ⟨-, cell, others⟩ := linked
      rw [addresses_cons, List.mem_cons] at member
      rcases member with rfl | later
      · rw [cell]
        exact Option.some_ne_none _
      · exact ih others later

/-! ## Paths -/

theorem Path.start_eq {field : Cell Data → Nat} {heap : Heap Data}
    {start stop : Nat} {nodes : List (Nat × Data)}
    (path : Path field heap start nodes stop) :
    start = headAddress nodes stop := by
  cases nodes with
  | nil => exact path
  | cons node rest => exact path.1

theorem path_concat {field : Cell Data → Nat} {heap : Heap Data}
    {start stop : Nat} {nodes : List (Nat × Data)} {node : Nat × Data} :
    Path field heap start (nodes ++ [node]) stop ↔
      Path field heap start nodes node.1 ∧ node.1 ≠ 0 ∧
        ∃ cell, heap node.1 = some cell ∧ cell.data = node.2 ∧
          field cell = stop := by
  induction nodes generalizing start with
  | nil => exact Iff.rfl
  | cons first rest ih =>
      rw [List.cons_append, Path, Path]
      constructor
      · rintro ⟨isFirst, nonzero, cell, found, data, path⟩
        obtain ⟨before, last⟩ := ih.mp path
        exact ⟨⟨isFirst, nonzero, cell, found, data, before⟩, last⟩
      · rintro ⟨⟨isFirst, nonzero, cell, found, data, before⟩, last⟩
        exact ⟨isFirst, nonzero, cell, found, data, ih.mpr ⟨before, last⟩⟩

/-- The rest of a path starts at its own first cell. -/
theorem Path.behind {field : Cell Data → Nat} {heap : Heap Data}
    {start stop : Nat} {front nodes : List (Nat × Data)}
    (path : Path field heap start (front ++ nodes) stop) :
    Path field heap (headAddress nodes stop) nodes stop := by
  induction front generalizing start with
  | nil => exact path.start_eq ▸ path
  | cons node front ih =>
      obtain ⟨_, _, _, _, _, later⟩ := path
      exact ih later

/-- Cells are linked when both fields lead through them. -/
theorem linked_iff_paths {heap : Heap Data} {prev next : Nat}
    {nodes : List (Nat × Data)} :
    Linked heap prev nodes next ↔
      Path Cell.next heap (headAddress nodes next) nodes next ∧
        Path Cell.prev heap (lastAddress prev nodes) nodes.reverse prev := by
  induction nodes generalizing prev with
  | nil => exact ⟨fun _ => ⟨rfl, rfl⟩, fun _ => trivial⟩
  | cons node rest ih =>
      rw [Linked, ih, List.reverse_cons, lastAddress, path_concat, Path]
      constructor
      · rintro ⟨nonzero, found, forward, backward⟩
        exact ⟨⟨rfl, nonzero, _, found, rfl, forward⟩, backward, nonzero, _,
          found, rfl, rfl⟩
      · rintro ⟨⟨-, nonzero, cell, found, data, forward⟩, backward, -, again,
          foundAgain, -, isPrev⟩
        rw [found, Option.some.injEq] at foundAgain
        subst foundAgain
        have isNext := forward.start_eq
        refine ⟨nonzero, ?_, isNext ▸ forward, backward⟩
        rw [found, ← data, ← isPrev, ← isNext]

/-- From one address a field leads to no address in one way only. -/
theorem Path.unique {field : Cell Data → Nat} {heap : Heap Data}
    {start : Nat} {nodes others : List (Nat × Data)}
    (path : Path field heap start nodes 0)
    (other : Path field heap start others 0) : nodes = others := by
  induction nodes generalizing start others with
  | nil =>
      cases others with
      | nil => rfl
      | cons node rest =>
          obtain ⟨isNode, nonzero, -⟩ := other
          exact absurd (isNode.symm.trans path) nonzero
  | cons node rest ih =>
      obtain ⟨isNode, nonzero, cell, found, data, later⟩ := path
      cases others with
      | nil => exact absurd (isNode.symm.trans other) nonzero
      | cons first behind =>
          obtain ⟨isFirst, -, again, foundAgain, dataAgain, follows⟩ := other
          have address : node.1 = first.1 := isNode.symm.trans isFirst
          rw [← address, found, Option.some.injEq] at foundAgain
          subst foundAgain
          have same : node = first :=
            Prod.ext address (data.symm.trans dataAgain)
          rw [same, ih later follows]

/-- No cell is visited twice. -/
theorem Path.nodup {field : Cell Data → Nat} {heap : Heap Data}
    {start : Nat} {nodes : List (Nat × Data)}
    (path : Path field heap start nodes 0) : (addresses nodes).Nodup := by
  induction nodes generalizing start with
  | nil => exact List.nodup_nil
  | cons node rest ih =>
      obtain ⟨isNode, nonzero, cell, found, data, later⟩ := path
      rw [addresses_cons, List.nodup_cons]
      refine ⟨fun twice => ?_, ih later⟩
      -- the rest from the second visit on would be the whole list
      obtain ⟨again, member, address⟩ := List.mem_map.mp twice
      obtain ⟨before, behind, rfl⟩ := List.append_of_mem member
      have whole :
          Path field heap again.1 (node :: (before ++ again :: behind)) 0 :=
        ⟨address, nonzero, cell, found, data, later⟩
      have lengths := congrArg List.length (later.behind.unique whole)
      rw [List.length_cons, List.length_cons, List.length_append,
        List.length_cons] at lengths
      omega

theorem Linked.nodup {heap : Heap Data} {prev : Nat}
    {nodes : List (Nat × Data)} (linked : Linked heap prev nodes 0) :
    (addresses nodes).Nodup :=
  (linked_iff_paths.mp linked).1.nodup

/-! ## Stores -/

section Stores

variable (heap : Heap Data) (address value : Nat)

/-- A store into the field `next` of a cell, if there is a cell. -/
def storeNext : Option (Heap Data) :=
  if address = 0 then some heap
  else
    (heap address).map fun cell =>
      Function.update heap address (some { cell with next := value })

/-- A store into the field `prev` of a cell, if there is a cell. -/
def storePrev : Option (Heap Data) :=
  if address = 0 then some heap
  else
    (heap address).map fun cell =>
      Function.update heap address (some { cell with prev := value })

/-- A store into an allocated cell changes nothing else. -/
theorem exists_storeNext {heap : Heap Data} {address : Nat}
    {cell : Cell Data} (nonzero : address ≠ 0)
    (found : heap address = some cell) (value : Nat) :
    ∃ heap', storeNext heap address value = some heap' ∧
      heap' address = some { cell with next := value } ∧
        ∀ other, other ≠ address → heap' other = heap other := by
  rw [storeNext, if_neg nonzero, found]
  exact ⟨_, rfl, Function.update_self _ _ _,
    fun other different => Function.update_of_ne different _ _⟩

theorem exists_storePrev {heap : Heap Data} {address : Nat}
    {cell : Cell Data} (nonzero : address ≠ 0)
    (found : heap address = some cell) (value : Nat) :
    ∃ heap', storePrev heap address value = some heap' ∧
      heap' address = some { cell with prev := value } ∧
        ∀ other, other ≠ address → heap' other = heap other := by
  rw [storePrev, if_neg nonzero, found]
  exact ⟨_, rfl, Function.update_self _ _ _,
    fun other different => Function.update_of_ne different _ _⟩

end Stores

/-- The heap differs at most in these cells. -/
def AgreeBut (nodes : List (Nat × Data)) (heap heap' : Heap Data) : Prop :=
  ∀ address ∉ addresses nodes, heap' address = heap address

/-- A store into the last cell leads the list to another address. -/
theorem Linked.storeNext {heap : Heap Data} {prev next : Nat}
    {nodes : List (Nat × Data)} (linked : Linked heap prev nodes next)
    (nodup : (addresses nodes).Nodup) (value : Nat) :
    ∃ heap',
      DoublyLinked.storeNext heap (lastAddress 0 nodes) value = some heap' ∧
        Linked heap' prev nodes value ∧ AgreeBut nodes heap heap' := by
  rcases List.eq_nil_or_concat' nodes with rfl | ⟨init, node, rfl⟩
  · exact ⟨heap, rfl, trivial, fun _ _ => rfl⟩
  · obtain ⟨before, nonzero, cell, -⟩ := linked_append.mp linked
    have last : lastAddress 0 (init ++ [node]) = node.1 :=
      lastAddress_append 0 init [node]
    have outside : node.1 ∉ addresses init := by
      rw [addresses_append] at nodup
      exact fun member =>
        (List.nodup_append.mp nodup).2.2 _ member _ List.mem_cons_self rfl
    rw [last, DoublyLinked.storeNext, if_neg nonzero, cell]
    refine ⟨_, rfl, linked_append.mpr ⟨?_, nonzero, ?_, trivial⟩, ?_⟩
    · refine before.congr fun address member => ?_
      have different : address ≠ node.1 := by
        rintro rfl
        exact outside member
      exact Function.update_of_ne different _ _
    · exact Function.update_self _ _ _
    · intro address other
      refine Function.update_of_ne (fun same => other ?_) _ _
      rw [same, addresses_append]
      exact List.mem_append_right _ List.mem_cons_self

/-- A store into the first cell leads the list back to another address. -/
theorem Linked.storePrev {heap : Heap Data} {prev next : Nat}
    {nodes : List (Nat × Data)} (linked : Linked heap prev nodes next)
    (nodup : (addresses nodes).Nodup) (value : Nat) :
    ∃ heap',
      DoublyLinked.storePrev heap (headAddress nodes 0) value = some heap' ∧
        Linked heap' value nodes next ∧ AgreeBut nodes heap heap' := by
  cases nodes with
  | nil => exact ⟨heap, rfl, trivial, fun _ _ => rfl⟩
  | cons node rest =>
      obtain ⟨nonzero, cell, behind⟩ := linked
      have outside := (List.nodup_cons.mp nodup).1
      rw [headAddress, DoublyLinked.storePrev, if_neg nonzero, cell]
      refine ⟨_, rfl, ⟨nonzero, ?_, ?_⟩, ?_⟩
      · exact Function.update_self _ _ _
      · refine behind.congr fun address member => ?_
        have different : address ≠ node.1 := by
          rintro rfl
          exact outside member
        exact Function.update_of_ne different _ _
      · intro address other
        refine Function.update_of_ne (fun same => other ?_) _ _
        rw [same]
        exact List.mem_cons_self

end YiimpStratum.DoublyLinked
