import Mathlib.Data.List.TakeWhile
import YiimpStratum.Lists.CommonList

/-!
# What a list represents

A list represents a sequence of items when the items are linked in that order
from its first to its last one and `count` is their number.  Every operation
on a list that represents a sequence returns, and its result represents the
sequence that the operation is for.  `DeleteAll` is the exception: it frees the
items and leaves their addresses in `first` and `last`.
-/

namespace YiimpStratum.Lists

open YiimpStratum
open YiimpStratum.DoublyLinked

variable {Data : Type}

/-! ## Representation -/

/-- The list holds these items, in this order. -/
structure Represents (list : CommonList Data) (nodes : List (Nat × Data)) :
    Prop where
  linked : Linked list.items 0 nodes 0
  first : list.first = headAddress nodes 0
  last : list.last = lastAddress 0 nodes
  count : list.count = nodes.length

namespace Represents

variable {list : CommonList Data}

theorem empty : Represents (CommonList.empty : CommonList Data) [] where
  linked := trivial
  first := rfl
  last := rfl
  count := rfl

/-- The cell of an item, between its two neighbours. -/
theorem cell {before behind : List (Nat × Data)} {node : Nat × Data}
    (holds : Represents list (before ++ node :: behind)) :
    list.items node.1 =
      some ⟨node.2, lastAddress 0 before, headAddress behind 0⟩ :=
  (linked_append.mp holds.linked).2.2.1

theorem ne_zero {before behind : List (Nat × Data)} {node : Nat × Data}
    (holds : Represents list (before ++ node :: behind)) : node.1 ≠ 0 :=
  (linked_append.mp holds.linked).2.1

theorem nodup {nodes : List (Nat × Data)} (holds : Represents list nodes) :
    (addresses nodes).Nodup :=
  holds.linked.nodup

/-- A list represents one sequence only. -/
theorem unique {nodes others : List (Nat × Data)}
    (holds : Represents list nodes) (other : Represents list others) :
    nodes = others := by
  have path := (linked_iff_paths.mp holds.linked).1
  have otherPath := (linked_iff_paths.mp other.linked).1
  rw [← holds.first] at path
  rw [← other.first] at otherPath
  exact path.unique otherPath

theorem first_eq_zero_iff {nodes : List (Nat × Data)}
    (holds : Represents list nodes) : list.first = 0 ↔ nodes = [] := by
  rw [holds.first]
  cases nodes with
  | nil => exact ⟨fun _ => rfl, fun _ => rfl⟩
  | cons node rest =>
      exact iff_of_false holds.linked.1 (List.cons_ne_nil node rest)

end Represents

/-! ## `AddTail` -/

/-- `AddTail` puts the new item behind the others. -/
theorem Represents.addTail {list : CommonList Data}
    {nodes : List (Nat × Data)} (holds : Represents list nodes) {item : Nat}
    (nonzero : item ≠ 0) (fresh : list.items item = none) (data : Data) :
    ∃ list', list.addTail item data = some list' ∧
      Represents list' (nodes ++ [(item, data)]) := by
  have outside : item ∉ addresses nodes := fun member =>
    holds.linked.allocated member fresh
  have linked :
      Linked (Function.update list.items item (some ⟨data, list.last, 0⟩)) 0
        nodes 0 :=
    holds.linked.congr fun address member => by
      have different : address ≠ item := by
        rintro rfl
        exact outside member
      exact Function.update_of_ne different _ _
  obtain ⟨items, stored, before, agree⟩ := linked.storeNext holds.nodup item
  rw [← holds.last] at stored
  have result :
      list.addTail item data =
        some {
          count := list.count + 1
          first := if list.first = 0 then item else list.first
          last := item
          items := items } := by
    rw [CommonList.addTail]
    dsimp only
    rw [stored]
    rfl
  have new : items item = some ⟨data, lastAddress 0 nodes, 0⟩ := by
    rw [agree item outside, Function.update_self, holds.last]
  refine ⟨_, result, linked_append.mpr ⟨before, nonzero, new, trivial⟩,
    ?_, ?_, ?_⟩
  · have stored := ite_headAddress holds.first_eq_zero_iff 0 item
    rw [← holds.first] at stored
    rw [headAddress_append]
    exact stored
  · rw [lastAddress_append]
    rfl
  · dsimp only
    rw [holds.count, List.length_append]
    rfl

/-! ## `Delete` -/

/-- `Delete` takes one item out, wherever it is, and only touches the list. -/
theorem Represents.delete {list : CommonList Data}
    {before behind : List (Nat × Data)} {node : Nat × Data}
    (holds : Represents list (before ++ node :: behind)) :
    ∃ list', list.delete node.1 = some list' ∧
      Represents list' (before ++ behind) ∧
        AgreeBut (before ++ node :: behind) list.items list'.items := by
  have nodup := holds.nodup
  rw [addresses_append, addresses_cons, List.nodup_append] at nodup
  obtain ⟨nodupBefore, nodupRest, apart⟩ := nodup
  obtain ⟨notBehind, nodupBehind⟩ := List.nodup_cons.mp nodupRest
  have notBefore : node.1 ∉ addresses before := fun member =>
    apart _ member _ List.mem_cons_self rfl
  have separate : ∀ address ∈ addresses behind, address ∉ addresses before :=
    fun address member early =>
      apart _ early _ (List.mem_cons_of_mem _ member) rfl
  obtain ⟨linkedBefore, -, -, linkedBehind⟩ := linked_append.mp holds.linked
  -- the item before is led past the deleted one
  obtain ⟨items, stored, first, agree⟩ :=
    linkedBefore.storeNext nodupBefore (headAddress behind 0)
  have cell : items node.1 = _ := (agree _ notBefore).trans holds.cell
  have second : Linked items node.1 behind 0 :=
    linkedBehind.congr fun address member => agree _ (separate _ member)
  -- and the item behind is led back past it
  obtain ⟨items', stored', third, agree'⟩ :=
    second.storePrev nodupBehind (lastAddress 0 before)
  have linked :
      Linked (Function.update items' node.1 none) 0 (before ++ behind) 0 := by
    refine linked_append.mpr ⟨?_, ?_⟩
    · refine first.congr fun address member => ?_
      rw [Function.update_of_ne (by rintro rfl; exact notBefore member)]
      exact agree' _ fun late => separate _ late member
    · refine third.congr fun address member => ?_
      exact Function.update_of_ne (by rintro rfl; exact notBehind member) _ _
  have result :
      list.delete node.1 =
        some {
          count := list.count - 1
          first :=
            if list.first = node.1 then headAddress behind 0 else list.first
          last := if list.last = node.1 then lastAddress 0 before else list.last
          items := Function.update items' node.1 none } := by
    rw [CommonList.delete, holds.cell]
    dsimp only [Option.bind_eq_bind, Option.bind_some]
    rw [stored]
    dsimp only [Option.bind_some]
    rw [cell]
    dsimp only [Option.bind_some]
    rw [stored']
    rfl
  refine ⟨_, result, ⟨linked, ?_, ?_, ?_⟩, ?_⟩
  · dsimp only
    rw [holds.first, headAddress_append, headAddress_append]
    exact ite_headAddress (headAddress_eq_iff notBefore) _ _
  · dsimp only
    rw [holds.last, lastAddress_append, lastAddress_append]
    exact ite_lastAddress (lastAddress_eq_iff notBehind) _ _
  · dsimp only
    rw [holds.count, List.length_append, List.length_append,
      List.length_cons]
    omega
  · intro address outside
    rw [addresses_append, addresses_cons, List.mem_append, List.mem_cons,
      not_or, not_or] at outside
    obtain ⟨early, other, late⟩ := outside
    dsimp only
    rw [Function.update_of_ne other, agree' _ late, agree _ early]

/-! ## `Swap` -/

/-- `Swap` exchanges an item and the one behind it, wherever they are. -/
theorem Represents.swap {list : CommonList Data}
    {before behind : List (Nat × Data)} {a b : Nat × Data}
    (holds : Represents list (before ++ a :: b :: behind)) :
    ∃ list', list.swap a.1 b.1 = some list' ∧
      Represents list' (before ++ b :: a :: behind) := by
  have nodup := holds.nodup
  rw [addresses_append, addresses_cons, addresses_cons, List.nodup_append]
    at nodup
  obtain ⟨nodupBefore, nodupRest, apart⟩ := nodup
  obtain ⟨aOutside, nodupRest⟩ := List.nodup_cons.mp nodupRest
  obtain ⟨bBehind, nodupBehind⟩ := List.nodup_cons.mp nodupRest
  rw [List.mem_cons, not_or] at aOutside
  obtain ⟨different, aBehind⟩ := aOutside
  have aBefore : a.1 ∉ addresses before := fun member =>
    apart _ member _ List.mem_cons_self rfl
  have bBefore : b.1 ∉ addresses before := fun member =>
    apart _ member _ (List.mem_cons_of_mem _ List.mem_cons_self) rfl
  have separate : ∀ address ∈ addresses behind, address ∉ addresses before :=
    fun address member early =>
      apart _ early _
        (List.mem_cons_of_mem _ (List.mem_cons_of_mem _ member)) rfl
  have nonzero := holds.linked.ne_zero
  rw [addresses_append, List.mem_append, not_or, addresses_cons,
    addresses_cons, List.mem_cons, List.mem_cons, not_or, not_or] at nonzero
  obtain ⟨zeroBefore, -, -, zeroBehind⟩ := nonzero
  obtain ⟨linkedBefore, zeroA, cellA, zeroB, cellB, linkedBehind⟩ :=
    linked_append.mp holds.linked
  -- what is before is led to the second item, what is behind to the first
  obtain ⟨items, stored, first, agree⟩ :=
    linkedBefore.storeNext nodupBefore b.1
  have second : Linked items b.1 behind 0 :=
    linkedBehind.congr fun address member => agree _ (separate _ member)
  obtain ⟨items', stored', third, agree'⟩ := second.storePrev nodupBehind a.1
  have cellB₁ : items b.1 = _ := (agree _ bBefore).trans cellB
  have cellB₂ : items' b.1 = _ := (agree' _ bBehind).trans cellB₁
  have cellA₂ : items' a.1 = _ :=
    ((agree' _ aBehind).trans (agree _ aBefore)).trans cellA
  -- the rest are stores into the two items themselves
  obtain ⟨items₁, stored₁, a₁, other₁⟩ :=
    exists_storeNext zeroA cellA₂ (headAddress behind 0)
  have b₁ : items₁ b.1 = _ := (other₁ _ (Ne.symm different)).trans cellB₂
  obtain ⟨items₂, stored₂, b₂, other₂⟩ :=
    exists_storePrev zeroB b₁ (lastAddress 0 before)
  have a₂ : items₂ a.1 = _ := (other₂ _ different).trans a₁
  obtain ⟨items₃, stored₃, a₃, other₃⟩ := exists_storePrev zeroA a₂ b.1
  have b₃ : items₃ b.1 = _ := (other₃ _ (Ne.symm different)).trans b₂
  obtain ⟨items₄, stored₄, b₄, other₄⟩ := exists_storeNext zeroB b₃ a.1
  have a₄ : items₄ a.1 = _ := (other₄ _ different).trans a₃
  have elsewhere :
      ∀ address, address ≠ a.1 → address ≠ b.1 →
        items₄ address = items' address := fun address notA notB => by
    rw [other₄ _ notB, other₃ _ notA, other₂ _ notB, other₁ _ notA]
  have linked : Linked items₄ 0 (before ++ b :: a :: behind) 0 := by
    refine linked_append.mpr ⟨?_, zeroB, b₄, zeroA, a₄, ?_⟩
    · refine first.congr fun address member => ?_
      rw [elsewhere, agree' _ fun late => separate _ late member]
      · rintro rfl
        exact aBefore member
      · rintro rfl
        exact bBefore member
    · refine third.congr fun address member => elsewhere _ ?_ ?_
      · rintro rfl
        exact aBehind member
      · rintro rfl
        exact bBehind member
  have result :
      list.swap a.1 b.1 =
        some {
          count := list.count
          first := if lastAddress 0 before = 0 then b.1 else list.first
          last := if headAddress behind 0 = 0 then a.1 else list.last
          items := items₄ } := by
    rw [CommonList.swap]
    simp only [Option.bind_eq_bind, Option.bind_some, headAddress_cons, cellA,
      stored, cellB₁, stored', cellB₂, stored₁, a₁, stored₂, stored₃, stored₄,
      a₄, b₄]
    rfl
  refine ⟨_, result, linked, ?_, ?_, ?_⟩
  · dsimp only
    rw [holds.first, headAddress_append, headAddress_append]
    exact ite_headAddress (lastAddress_eq_iff zeroBefore) _ _
  · dsimp only
    rw [holds.last, lastAddress_append, lastAddress_append]
    exact ite_lastAddress (headAddress_eq_iff zeroBehind) _ _
  · dsimp only
    rw [holds.count, List.length_append, List.length_append]
    rfl

/-! ## `Find` -/

theorem findFrom_linked [DecidableEq Data] {list : CommonList Data}
    {prev : Nat} {nodes : List (Nat × Data)}
    (linked : Linked list.items prev nodes 0) (data : Data) {rounds : Nat}
    (enough : nodes.length < rounds) :
    list.findFrom data rounds (headAddress nodes 0) =
      some (headAddress (nodes.dropWhile fun node => data ≠ node.2) 0) := by
  induction rounds generalizing prev nodes with
  | zero => exact absurd enough (Nat.not_lt_zero _)
  | succ rounds ih =>
      cases nodes with
      | nil => rfl
      | cons node rest =>
          obtain ⟨nonzero, cell, behind⟩ := linked
          rw [CommonList.findFrom, headAddress_cons, if_neg nonzero, cell]
          dsimp only [Option.bind_eq_bind, Option.bind_some]
          by_cases found : data = node.2
          · rw [if_pos found,
              List.dropWhile_cons_of_neg (by simpa using found)]
            rfl
          · rw [if_neg found,
              List.dropWhile_cons_of_pos (by simpa using found)]
            exact ih behind (Nat.lt_of_succ_lt_succ enough)

/-- `Find` returns the first item with the data. -/
theorem Represents.find [DecidableEq Data] {list : CommonList Data}
    {before behind : List (Nat × Data)} {node : Nat × Data}
    (holds : Represents list (before ++ node :: behind))
    (notBefore : node.2 ∉ before.map Prod.snd) {rounds : Nat}
    (enough : (before ++ node :: behind).length < rounds) :
    list.find rounds node.2 = some node.1 := by
  rw [CommonList.find, holds.first, findFrom_linked holds.linked _ enough,
    List.dropWhile_append_of_pos, List.dropWhile_cons_of_neg]
  · rfl
  · simp
  · intro other member
    refine decide_eq_true fun same => notBefore ?_
    rw [same]
    exact List.mem_map_of_mem member

theorem Represents.find_of_not_mem [DecidableEq Data]
    {list : CommonList Data} {nodes : List (Nat × Data)}
    (holds : Represents list nodes) {data : Data}
    (absent : data ∉ nodes.map Prod.snd) {rounds : Nat}
    (enough : nodes.length < rounds) : list.find rounds data = some 0 := by
  have noneLeft : (nodes.dropWhile fun node => data ≠ node.2) = [] := by
    rw [List.dropWhile_eq_nil_iff]
    intro node member
    refine decide_eq_true fun same => absent ?_
    rw [same]
    exact List.mem_map_of_mem member
  rw [CommonList.find, holds.first, findFrom_linked holds.linked _ enough,
    noneLeft]
  rfl

/-- `Delete` of some data takes out the first item with the data. -/
theorem Represents.deleteData [DecidableEq Data] {list : CommonList Data}
    {nodes : List (Nat × Data)} (holds : Represents list nodes)
    (data : Data) {rounds : Nat} (enough : nodes.length < rounds) :
    ∃ list' nodes', list.deleteData rounds data = some list' ∧
      Represents list' nodes' ∧
        nodes'.map Prod.snd = (nodes.map Prod.snd).erase data := by
  by_cases present : data ∈ nodes.map Prod.snd
  · obtain ⟨datas, datas', absent, split, erased⟩ :=
      List.exists_erase_eq present
    obtain ⟨before, rest, rfl, rfl, isRest⟩ := List.map_eq_append_iff.mp split
    obtain ⟨node, behind, rfl, rfl, rfl⟩ := List.map_eq_cons_iff.mp isRest
    obtain ⟨list', deleted, holds', -⟩ := holds.delete
    refine ⟨list', before ++ behind, ?_, holds', ?_⟩
    · rw [CommonList.deleteData, holds.find absent enough]
      dsimp only [Option.bind_eq_bind, Option.bind_some]
      rw [if_neg holds.ne_zero, deleted]
    · rw [erased, List.map_append]
  · refine ⟨list, nodes, ?_, holds, (List.erase_of_not_mem present).symm⟩
    rw [CommonList.deleteData, holds.find_of_not_mem present enough]
    rfl

/-! ## `DeleteAll` -/

/-- The loop of `DeleteAll` frees every item. -/
theorem freeFrom_linked {items : Heap Data} {prev : Nat}
    {nodes : List (Nat × Data)} (linked : Linked items prev nodes 0)
    (nodup : (addresses nodes).Nodup) {rounds : Nat}
    (enough : nodes.length < rounds) :
    ∃ items',
      CommonList.freeFrom rounds items (headAddress nodes 0) = some items' ∧
        (∀ address ∈ addresses nodes, items' address = none) ∧
          AgreeBut nodes items items' := by
  induction rounds generalizing items prev nodes with
  | zero => exact absurd enough (Nat.not_lt_zero _)
  | succ rounds ih =>
      cases nodes with
      | nil =>
          exact ⟨items, rfl, List.forall_mem_nil _, fun _ _ => rfl⟩
      | cons node rest =>
          obtain ⟨nonzero, cell, behind⟩ := linked
          obtain ⟨notBehind, nodupRest⟩ := List.nodup_cons.mp nodup
          have left :
              Linked (Function.update items node.1 none) node.1 rest 0 :=
            behind.congr fun address member => by
              have different : address ≠ node.1 := by
                rintro rfl
                exact notBehind member
              exact Function.update_of_ne different _ _
          obtain ⟨items', freed, gone, agree⟩ :=
            ih left nodupRest (Nat.lt_of_succ_lt_succ enough)
          refine ⟨items', ?_, ?_, ?_⟩
          · rw [CommonList.freeFrom, headAddress_cons, if_neg nonzero, cell]
            exact freed
          · rw [addresses_cons, List.forall_mem_cons]
            refine ⟨?_, gone⟩
            rw [agree _ notBehind, Function.update_self]
          · intro address outside
            rw [addresses_cons, List.mem_cons, not_or] at outside
            rw [agree _ outside.2, Function.update_of_ne outside.1]

/-- After `DeleteAll` the first address is that of a freed item. -/
theorem Represents.deleteAll {list : CommonList Data}
    {nodes : List (Nat × Data)} (holds : Represents list nodes) {rounds : Nat}
    (enough : nodes.length < rounds) :
    ∃ list', list.deleteAll rounds = some list' ∧ list'.count = 0 ∧
      list'.first = list.first ∧ list'.last = list.last ∧
        ∀ address ∈ addresses nodes, list'.items address = none := by
  obtain ⟨items', freed, gone, -⟩ :=
    freeFrom_linked holds.linked holds.nodup enough
  rw [← holds.first] at freed
  refine ⟨{ list with count := 0, items := items' }, ?_, rfl, rfl, rfl, gone⟩
  rw [CommonList.deleteAll, freed]
  rfl

theorem Represents.deleteAll_nil {list : CommonList Data}
    (holds : Represents list []) {rounds : Nat} (enough : 0 < rounds) :
    ∃ list', list.deleteAll rounds = some list' ∧ Represents list' [] := by
  obtain ⟨list', deleted, count, first, last, -⟩ := holds.deleteAll enough
  exact ⟨list', deleted, trivial, first.trans holds.first,
    last.trans holds.last, count⟩

/-! ## Items by their place -/

namespace CommonList

/-- The item at a place, or the address 0 behind the last one. -/
def itemAt (list : CommonList Data) : Nat → Option Nat
  | 0 => some list.first
  | place + 1 => do
      let item ← list.itemAt place
      if item = 0 then some 0
      else do
        let cell ← list.items item
        return cell.next

end CommonList

theorem Represents.itemAt {list : CommonList Data}
    {nodes : List (Nat × Data)} (holds : Represents list nodes) (place : Nat) :
    list.itemAt place = some (headAddress (nodes.drop place) 0) := by
  induction place with
  | zero => exact congrArg some holds.first
  | succ place ih =>
      rw [CommonList.itemAt, ih]
      dsimp only [Option.bind_eq_bind, Option.bind_some]
      rw [← List.tail_drop]
      rcases left : nodes.drop place with _ | ⟨node, rest⟩
      · rfl
      · have split := List.take_append_drop place nodes
        rw [left] at split
        rw [← split] at holds
        rw [headAddress_cons, if_neg holds.ne_zero, holds.cell]
        rfl

end YiimpStratum.Lists
