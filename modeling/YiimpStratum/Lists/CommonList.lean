import YiimpStratum.Library.DoublyLinked

/-!
# The lists of the server

`list.cpp`: a doubly linked list with a count and the addresses of its first
and its last item.  All the global lists are of this class.

The address 0 is `NULL`.  The outcome is `none` after an access to an item that
is not allocated, and when a loop has no rounds left: the addresses in a heap
may form a cycle.  Mutexes are left out.
-/

namespace YiimpStratum.Lists

open YiimpStratum
open YiimpStratum.DoublyLinked

/-- `COMMONLISTITEM` -/
abbrev CommonListItem (Data : Type) :=
  Cell Data

/-- `CommonList`, and the items that are allocated. -/
structure CommonList (Data : Type) where
  count : Int
  first : Nat
  last : Nat
  items : Heap Data

namespace CommonList

variable {Data : Type}

/-- The list after its constructor. -/
def empty : CommonList Data where
  count := 0
  first := 0
  last := 0
  items := fun _ => none

/-- `AddTail`, with the address that `new` returns. -/
def addTail (list : CommonList Data) (item : Nat) (data : Data) :
    Option (CommonList Data) := do
  let new : CommonListItem Data := ⟨data, list.last, 0⟩
  let items ←
    storeNext (Function.update list.items item (some new)) new.prev item
  return {
    count := list.count + 1
    first := if list.first = 0 then item else list.first
    last := item
    items := items }

/-- `Delete` of an item. -/
def delete (list : CommonList Data) (item : Nat) :
    Option (CommonList Data) := do
  let old ← list.items item
  let items ← storeNext list.items old.prev old.next
  let unlinked ← items item
  let items ← storePrev items unlinked.next unlinked.prev
  return {
    count := list.count - 1
    first := if list.first = item then old.next else list.first
    last := if list.last = item then old.prev else list.last
    items := Function.update items item none }

/-- The loop of `Find`, from an item on. -/
def findFrom [DecidableEq Data] (list : CommonList Data) (data : Data) :
    Nat → Nat → Option Nat
  | 0, _ => none
  | rounds + 1, item =>
      if item = 0 then some 0
      else do
        let cell ← list.items item
        if data = cell.data then some item
        else list.findFrom data rounds cell.next

/-- `Find` -/
def find [DecidableEq Data] (list : CommonList Data) (rounds : Nat)
    (data : Data) : Option Nat :=
  list.findFrom data rounds list.first

/-- `Delete` of the first item with the data. -/
def deleteData [DecidableEq Data] (list : CommonList Data) (rounds : Nat)
    (data : Data) : Option (CommonList Data) := do
  let item ← list.find rounds data
  if item = 0 then some list else list.delete item

/-- The loop of `DeleteAll`, from an item on. -/
def freeFrom : Nat → Heap Data → Nat → Option (Heap Data)
  | 0, _, _ => none
  | rounds + 1, items, li1 =>
      if li1 = 0 then some items
      else do
        let tmp ← items li1
        freeFrom rounds (Function.update items li1 none) tmp.next

/-- `DeleteAll`, with a function that does nothing to the list. -/
def deleteAll (list : CommonList Data) (rounds : Nat) :
    Option (CommonList Data) := do
  let items ← freeFrom rounds list.items list.first
  return { list with count := 0, items := items }

/-- `Swap` -/
def swap (list : CommonList Data) (i1 i2 : Nat) :
    Option (CommonList Data) := do
  let old1 ← list.items i1
  let items ← storeNext list.items old1.prev i2
  let old2 ← items i2
  let items ← storePrev items old2.next i1
  let old2 ← items i2
  let items ← storeNext items i1 old2.next
  let old1 ← items i1
  let items ← storePrev items i2 old1.prev
  let items ← storePrev items i1 i2
  let items ← storeNext items i2 i1
  let new1 ← items i1
  let new2 ← items i2
  return {
    count := list.count
    first := if new2.prev = 0 then i2 else list.first
    last := if new1.next = 0 then i1 else list.last
    items := items }

end CommonList

end YiimpStratum.Lists
