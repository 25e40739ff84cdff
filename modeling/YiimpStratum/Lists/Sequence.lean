import YiimpStratum.Library.Run
import YiimpStratum.Lists.Invariant

/-!
# Sequences of operations

Every operation on a list is also performed on a plain list of the data.  The
two agree after every operation as long as `DeleteAll` finds no item to free:
it leaves `first` and `last` on the items that it frees.
-/

namespace YiimpStratum.Lists

open YiimpStratum
open YiimpStratum.DoublyLinked
open YiimpStratum.Run

variable {Data : Type}

/-! ## Operations -/

/-- An operation on a list; items are given by their places. -/
inductive Operation (Data : Type) where
  | addTail (item : Nat) (data : Data)
  | delete (place : Nat)
  | deleteData (data : Data)
  | deleteAll
  | swap (place : Nat)
  deriving DecidableEq

/-- `new` only returns an address where nothing is allocated. -/
def CommonList.possible (list : CommonList Data) : Operation Data → Bool
  | .addTail item _ => item ≠ 0 && (list.items item).isNone
  | _ => true

/-- The list with an operation; there is none on an item behind the last. -/
def CommonList.perform [DecidableEq Data] (list : CommonList Data)
    (rounds : Nat) : Operation Data → Option (CommonList Data)
  | .addTail item data => list.addTail item data
  | .delete place => do
      let item ← list.itemAt place
      if item = 0 then some list else list.delete item
  | .deleteData data => list.deleteData rounds data
  | .deleteAll => list.deleteAll rounds
  | .swap place => do
      let i1 ← list.itemAt place
      let i2 ← list.itemAt (place + 1)
      if i2 = 0 then some list else list.swap i1 i2

/-- A plain list with the data at a place and behind it exchanged. -/
def swapAt : Nat → List Data → List Data
  | 0, first :: second :: rest => second :: first :: rest
  | place + 1, first :: rest => first :: swapAt place rest
  | _, data => data

/-- The operation on a plain list. -/
def performPlain [DecidableEq Data] (data : List Data) :
    Operation Data → List Data
  | .addTail _ new => data ++ [new]
  | .delete place => data.eraseIdx place
  | .deleteData old => data.erase old
  | .deleteAll => []
  | .swap place => swapAt place data

/-- A list, unless it went wrong, and the plain list of its data. -/
structure Both (Data : Type) where
  list : Option (CommonList Data)
  plain : List Data

namespace Both

def start : Both Data where
  list := some .empty
  plain := []

/-- An operation on both, whose loops have this number of rounds. -/
def step [DecidableEq Data] (rounds : Nat) (both : Both Data)
    (operation : Operation Data) : Both Data :=
  match both.list with
  | none => both
  | some list =>
      if list.possible operation then
        ⟨list.perform rounds operation, performPlain both.plain operation⟩
      else both

end Both

/-! ## Consistency -/

/--
`next` from the first item and `prev` from the last one visit the same items
in opposite orders, `count` is their number, and the data are these.
-/
def Consistent (list : CommonList Data) (data : List Data) : Prop :=
  ∃ nodes,
    Path Cell.next list.items list.first nodes 0 ∧
      Path Cell.prev list.items list.last nodes.reverse 0 ∧
        list.count = nodes.length ∧ nodes.map Prod.snd = data

/-- The list went well and is consistent with the plain list. -/
def Both.Agrees (both : Both Data) : Prop :=
  ∃ list, both.list = some list ∧ Consistent list both.plain

theorem consistent_iff {list : CommonList Data} {data : List Data} :
    Consistent list data ↔
      ∃ nodes, Represents list nodes ∧ nodes.map Prod.snd = data := by
  constructor
  · rintro ⟨nodes, forward, backward, count, isData⟩
    have first := forward.start_eq
    have last : list.last = lastAddress 0 nodes := by
      rw [backward.start_eq]
      exact headAddress_reverse nodes 0
    refine ⟨nodes, ⟨linked_iff_paths.mpr ⟨?_, ?_⟩, first, last, count⟩, isData⟩
    · exact first ▸ forward
    · exact last ▸ backward
  · rintro ⟨nodes, holds, isData⟩
    obtain ⟨forward, backward⟩ := linked_iff_paths.mp holds.linked
    rw [← holds.first] at forward
    rw [← holds.last] at backward
    exact ⟨nodes, forward, backward, holds.count, isData⟩

/-! ## One operation -/

/-- A place within a list splits it. -/
theorem exists_split {nodes : List (Nat × Data)} {place : Nat}
    (within : place < nodes.length) :
    ∃ before node behind, nodes = before ++ node :: behind ∧
      before.length = place :=
  ⟨nodes.take place, nodes[place], nodes.drop (place + 1),
    by rw [← List.drop_eq_getElem_cons within, List.take_append_drop],
    List.length_take_of_le within.le⟩

theorem swapAt_append (before behind : List Data) (first second : Data) :
    swapAt before.length (before ++ first :: second :: behind) =
      before ++ second :: first :: behind := by
  induction before with
  | nil => rfl
  | cons data before ih => exact congrArg (data :: ·) ih

theorem swapAt_of_length_le {place : Nat} {data : List Data}
    (short : data.length ≤ place + 1) : swapAt place data = data := by
  fun_induction swapAt place data with
  | case1 first second rest =>
      rw [List.length_cons, List.length_cons] at short
      omega
  | case2 place first rest ih =>
      rw [List.length_cons] at short
      rw [ih (by omega)]
  | case3 => rfl

theorem Represents.perform_delete [DecidableEq Data]
    {list : CommonList Data} {nodes : List (Nat × Data)}
    (holds : Represents list nodes) (rounds place : Nat) :
    ∃ list' nodes', list.perform rounds (.delete place) = some list' ∧
      Represents list' nodes' ∧
        nodes'.map Prod.snd = (nodes.map Prod.snd).eraseIdx place := by
  have read := holds.itemAt place
  rcases Nat.lt_or_ge place nodes.length with within | outside
  · obtain ⟨before, node, behind, rfl, rfl⟩ := exists_split within
    obtain ⟨list', deleted, holds', -⟩ := holds.delete
    rw [List.drop_left, headAddress_cons] at read
    refine ⟨list', before ++ behind, ?_, holds', ?_⟩
    · rw [CommonList.perform, read]
      dsimp only [Option.bind_eq_bind, Option.bind_some]
      rw [if_neg holds.ne_zero, deleted]
    · have places : (before.map Prod.snd).length = before.length :=
        List.length_map _
      rw [List.map_append, List.map_append, List.map_cons, ← places,
        List.eraseIdx_append_of_length_le le_rfl, Nat.sub_self,
        List.eraseIdx_cons_zero]
  · rw [List.drop_of_length_le outside] at read
    refine ⟨list, nodes, ?_, holds, ?_⟩
    · rw [CommonList.perform, read]
      rfl
    · rw [List.eraseIdx_of_length_le]
      rw [List.length_map]
      exact outside

theorem Represents.perform_swap [DecidableEq Data]
    {list : CommonList Data} {nodes : List (Nat × Data)}
    (holds : Represents list nodes) (rounds place : Nat) :
    ∃ list' nodes', list.perform rounds (.swap place) = some list' ∧
      Represents list' nodes' ∧
        nodes'.map Prod.snd = swapAt place (nodes.map Prod.snd) := by
  have read := holds.itemAt place
  have readNext := holds.itemAt (place + 1)
  rcases Nat.lt_or_ge (place + 1) nodes.length with within | outside
  · obtain ⟨before, a, rest, rfl, rfl⟩ :=
      exists_split (Nat.lt_of_succ_lt within)
    cases rest with
    | nil =>
        rw [List.length_append] at within
        exact absurd within (lt_irrefl _)
    | cons b behind =>
        obtain ⟨list', swapped, holds'⟩ := holds.swap
        rw [List.drop_left, headAddress_cons] at read
        rw [← List.drop_drop, List.drop_left, List.drop_one, List.tail_cons,
          headAddress_cons] at readNext
        have nonzero : b.1 ≠ 0 := (linked_append.mp holds.linked).2.2.2.1
        refine ⟨list', before ++ b :: a :: behind, ?_, holds', ?_⟩
        · rw [CommonList.perform, read, readNext]
          dsimp only [Option.bind_eq_bind, Option.bind_some]
          rw [if_neg nonzero, swapped]
        · have places : (before.map Prod.snd).length = before.length :=
            List.length_map _
          rw [List.map_append, List.map_append, List.map_cons, List.map_cons,
            List.map_cons, List.map_cons, ← places, swapAt_append]
  · rw [List.drop_of_length_le outside] at readNext
    refine ⟨list, nodes, ?_, holds, ?_⟩
    · rw [CommonList.perform, read, readNext]
      rfl
    · rw [swapAt_of_length_le]
      rw [List.length_map]
      exact outside

/-- An operation keeps the two in agreement, `DeleteAll` of items apart. -/
theorem Represents.perform [DecidableEq Data]
    {list : CommonList Data} {nodes : List (Nat × Data)}
    (holds : Represents list nodes) {operation : Operation Data}
    (possible : list.possible operation = true)
    (careful : operation = .deleteAll → nodes = []) {rounds : Nat}
    (enough : nodes.length < rounds) :
    ∃ list' nodes', list.perform rounds operation = some list' ∧
      Represents list' nodes' ∧
        nodes'.map Prod.snd =
          performPlain (nodes.map Prod.snd) operation := by
  cases operation with
  | addTail item data =>
      rw [CommonList.possible, Bool.and_eq_true, decide_eq_true_eq,
        Option.isNone_iff_eq_none] at possible
      obtain ⟨list', added, holds'⟩ :=
        holds.addTail possible.1 possible.2 data
      exact ⟨list', _, added, holds', List.map_append⟩
  | delete place => exact holds.perform_delete rounds place
  | deleteData data => exact holds.deleteData data enough
  | deleteAll =>
      have empty := careful rfl
      subst empty
      obtain ⟨list', deleted, holds'⟩ := holds.deleteAll_nil enough
      exact ⟨list', [], deleted, holds', rfl⟩
  | swap place => exact holds.perform_swap rounds place

/-- After `DeleteAll` the first item of a list is no longer allocated. -/
theorem Represents.not_consistent_deleteAll {list list' : CommonList Data}
    {nodes : List (Nat × Data)} (holds : Represents list nodes)
    (items : nodes ≠ []) {rounds : Nat} (enough : nodes.length < rounds)
    (deleted : list.deleteAll rounds = some list') (data : List Data) :
    ¬ Consistent list' data := by
  intro consistent
  obtain ⟨others, other, -⟩ := consistent_iff.mp consistent
  obtain ⟨list'', deleted', -, first, -, gone⟩ := holds.deleteAll enough
  rw [deleted, Option.some.injEq] at deleted'
  subst deleted'
  have inside := @headAddress_mem _ nodes 0 items
  rw [← holds.first, ← first, other.first] at inside
  cases others with
  | nil => exact holds.linked.ne_zero inside
  | cons node rest =>
      exact
        other.linked.allocated List.mem_cons_self (gone node.1 inside)

/-! ## Sequences of operations -/

/-- `DeleteAll` is the only operation with a condition. -/
def Both.Careful (both : Both Data) (operation : Operation Data) : Prop :=
  operation = .deleteAll → both.plain = []

/-- An operation adds at most one item. -/
theorem length_performPlain [DecidableEq Data] (data : List Data)
    (operation : Operation Data) :
    (performPlain data operation).length ≤ data.length + 1 := by
  cases operation with
  | addTail item new => exact (List.length_append ..).le
  | delete place =>
      exact (List.length_eraseIdx_le data place).trans (Nat.le_succ _)
  | deleteData old => exact List.length_erase_le.trans (Nat.le_succ _)
  | deleteAll => exact Nat.zero_le _
  | swap place =>
      refine (le_of_eq ?_).trans (Nat.le_succ _)
      rw [performPlain]
      fun_induction swapAt place data with
      | case1 first second rest => rfl
      | case2 place first rest ih =>
          rw [List.length_cons, List.length_cons, ih]
      | case3 => rfl

theorem Both.length_step [DecidableEq Data] (rounds : Nat) (both : Both Data)
    (operation : Operation Data) :
    (both.step rounds operation).plain.length ≤ both.plain.length + 1 := by
  rw [Both.step]
  split
  · exact Nat.le_succ _
  · split
    · exact length_performPlain both.plain operation
    · exact Nat.le_succ _

theorem Both.Agrees.agrees_step_iff [DecidableEq Data] {both : Both Data}
    (agrees : both.Agrees) {rounds : Nat}
    (enough : both.plain.length < rounds) (operation : Operation Data) :
    (both.step rounds operation).Agrees ↔ both.Careful operation := by
  obtain ⟨list, isList, consistent⟩ := agrees
  obtain ⟨nodes, holds, isPlain⟩ := consistent_iff.mp consistent
  have emptyIff : both.plain = [] ↔ nodes = [] := by
    rw [← isPlain, List.map_eq_nil_iff]
  rw [← isPlain, List.length_map] at enough
  by_cases careful : both.Careful operation
  · refine iff_of_true ?_ careful
    rw [Both.step, isList]
    dsimp only
    split
    · rename_i possible
      obtain ⟨list', nodes', performed, holds', isPlain'⟩ :=
        holds.perform possible (fun all => emptyIff.mp (careful all)) enough
      rw [isPlain] at isPlain'
      exact ⟨list', performed, consistent_iff.mpr ⟨nodes', holds', isPlain'⟩⟩
    · exact ⟨list, isList, consistent⟩
  · refine iff_of_false ?_ careful
    rw [Both.Careful, Classical.not_imp] at careful
    obtain ⟨rfl, items⟩ := careful
    rintro ⟨list', isList', consistent'⟩
    rw [Both.step, isList] at isList' consistent'
    exact
      holds.not_consistent_deleteAll (mt emptyIff.mpr items) enough isList' _
        consistent'

theorem Both.agrees_start : (Both.start : Both Data).Agrees :=
  ⟨.empty, rfl, consistent_iff.mpr ⟨[], .empty, rfl⟩⟩

/--
Exactly the sequences that never call `DeleteAll` on a list with items keep
the list consistent with the plain list.
-/
theorem agrees_iff_careful [DecidableEq Data]
    (operations : List (Operation Data)) :
    ∃ enough, ∀ rounds, enough ≤ rounds →
      ((∀ reached, reached <+: operations →
          (after (Both.step rounds) Both.start reached).Agrees) ↔
        EveryStep (Both.step rounds) Both.Careful Both.start operations) := by
  refine ⟨operations.length + 1, fun rounds enough => ?_⟩
  refine
    forall_prefix_iff_everyStep_of_left
      (fun left both => both.plain.length + left < rounds) Both.Agrees
      ?_ ?_ ?_ Both.agrees_start
  · intro left both operation room
    have grown := both.length_step rounds operation
    omega
  · intro left both operation room agrees
    exact agrees.agrees_step_iff (by omega) operation
  · exact (Nat.zero_add _).trans_lt enough

/-- An item is added and all are deleted: `first` is a freed item. -/
theorem not_agrees_after_deleteAll :
    ∃ enough, ∀ rounds, enough ≤ rounds →
      ¬ (after (Both.step rounds) Both.start
          [Operation.addTail 1 (7 : Nat), .deleteAll]).Agrees := by
  refine ⟨2, fun rounds enough agrees => ?_⟩
  have first : (Both.start.step rounds (.addTail 1 (7 : Nat))).Agrees :=
    (Both.agrees_start.agrees_step_iff (Nat.lt_of_succ_lt enough) _).mpr
      fun same => nomatch same
  have careful := (first.agrees_step_iff enough .deleteAll).mp agrees rfl
  exact absurd careful (List.cons_ne_nil _ _)

end YiimpStratum.Lists
