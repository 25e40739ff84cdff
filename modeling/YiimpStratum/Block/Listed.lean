import YiimpStratum.Block.Prune

/-!
# The list of blocks between two steps

What holds of the records and the queries in every careful run.  A record that
is deleted lies behind the running `block_prune`, and so does one that is
printed, but for the one that is about to be deleted.  `object_prune` frees
them before the next `block_prune` starts, since nothing locks them.  So no
`block_prune` meets a record that was printed before.
-/

namespace YiimpStratum.Block

open YiimpStratum
open YiimpStratum.Util

/-! ## Changes of one record -/

/-- The change of a record that leaves its number as it is. -/
theorem mem_modifyRecord {number : Nat} {change : BlockRecord → BlockRecord}
    {blocks : List BlockRecord} {new : BlockRecord} :
    new ∈ modifyRecord number change blocks ↔
      ∃ old ∈ blocks,
        (if old.number = number then change old else old) = new :=
  List.mem_map

theorem modifyRecord_numbers (number : Nat)
    (change : BlockRecord → BlockRecord)
    (sameNumber : ∀ block, (change block).number = block.number)
    (blocks : List BlockRecord) :
    (modifyRecord number change blocks).map BlockRecord.number =
      blocks.map BlockRecord.number := by
  rw [modifyRecord, List.map_map]
  refine List.map_congr_left fun block _ => ?_
  dsimp only [Function.comp_apply]
  split
  · exact sameNumber block
  · rfl

/-- An item is not among the items before it. -/
theorem not_mem_take_of_nodup {items : List Nat} (distinct : items.Nodup)
    {index item : Nat} (isItem : items[index]? = some item) :
    item ∉ items.take index := by
  intro earlier
  obtain ⟨bound, isThere⟩ := List.getElem?_eq_some_iff.mp isItem
  rw [← List.take_append_drop index items, List.nodup_append] at distinct
  refine distinct.2.2 item earlier item ?_ rfl
  rw [List.mem_drop_iff_getElem]
  exact ⟨0, by simpa using bound, by simpa using isThere⟩

namespace Recorder

theorem mem_numbers {state : Recorder} {number : Nat} :
    number ∈ state.numbers ↔
      ∃ block ∈ state.blocks, block.number = number :=
  List.mem_map

theorem number_mem_numbers {state : Recorder} {block : BlockRecord}
    (listed : block ∈ state.blocks) : block.number ∈ state.numbers :=
  List.mem_map_of_mem listed

/-! ## The invariant -/

/-- What holds between any two steps of a careful run. -/
structure Consistent (state : Recorder) : Prop where
  unlocked : ∀ block ∈ state.blocks, block.lockCount = 0
  numbersDistinct : state.numbers.Nodup
  fresh : ∀ number ∈ state.numbers, number < state.nextNumber
  deletedPassed :
    ∀ block ∈ state.blocks, block.deleted = true →
      block.number ∈ state.passed
  confirmedMarked :
    ∀ block ∈ state.blocks, block.confirmed = true →
      block.number ∈ state.marked
  atItem :
    ∀ number index, state.position = .deleting number index →
      state.numbers[index]? = some number
  printed :
    ∀ number index, state.position = .deleting number index →
      ∀ block ∈ state.blocks,
        block.number = number → block.confirmed = true →
          number ∈ state.rows.map BlockRow.number
  insertedFresh : ∀ number ∈ state.inserted, number < state.nextNumber
  insertedDeleted :
    ∀ block ∈ state.blocks, block.number ∈ state.inserted →
      block.deleted = true ∨
        ∃ index, state.position = .deleting block.number index
  insertedMarked : ∀ number ∈ state.inserted, number ∈ state.marked
  insertedOnce : state.inserted.Nodup

theorem consistent_initial : initial.Consistent where
  unlocked := by simp [initial]
  numbersDistinct := List.nodup_nil
  fresh := by simp [initial, numbers]
  deletedPassed := by simp [initial]
  confirmedMarked := by simp [initial]
  atItem := by simp [initial]
  printed := by simp [initial]
  insertedFresh := by simp [initial, inserted]
  insertedDeleted := by simp [initial]
  insertedMarked := by simp [initial, inserted]
  insertedOnce := List.nodup_nil

section Items

variable {state : Recorder} (consistent : state.Consistent)
include consistent

/-- An item is not among the items before it. -/
theorem Consistent.not_mem_take {index number : Nat}
    (item : state.numbers[index]? = some number) :
    number ∉ state.numbers.take index :=
  not_mem_take_of_nodup consistent.numbersDistinct item

theorem Consistent.eq_of_number_eq {one other : BlockRecord}
    (listed : one ∈ state.blocks) (alsoListed : other ∈ state.blocks)
    (sameNumber : one.number = other.number) : one = other :=
  List.inj_on_of_nodup_map consistent.numbersDistinct listed alsoListed
    sameNumber

/-- The record that `block_prune` comes to is in no query yet. -/
theorem Consistent.not_inserted {index : Nat} {block : BlockRecord}
    (position : state.position = .testing index)
    (item : state.blocks[index]? = some block) :
    block.number ∉ state.inserted := by
  intro again
  have itemNumber : state.numbers[index]? = some block.number := by
    rw [numbers, List.getElem?_map, item, Option.map_some]
  have listed := List.mem_of_getElem? item
  rcases consistent.insertedDeleted block listed again with
    deleted | ⟨_, elsewhere⟩
  · have behind := consistent.deletedPassed block listed deleted
    rw [passed, position] at behind
    exact consistent.not_mem_take itemNumber behind
  · rw [position] at elsewhere
    exact MainPosition.noConfusion elsewhere

end Items

/-! ## The statements of the other threads -/

theorem Consistent.add {state : Recorder} (consistent : state.Consistent)
    (now : Int) (data : BlockData) : (state.add now data).Consistent := by
  rw [Recorder.add]
  split
  · exact consistent
  next free =>
  have notDeleting :
      ∀ number index, state.position ≠ .deleting number index := by
    intro number index position
    rw [position] at free
    exact free rfl
  exact {
    unlocked := by
      intro block listed
      rcases List.mem_append.mp listed with old | new
      · exact consistent.unlocked block old
      · rw [List.mem_singleton.mp new]
        rfl
    numbersDistinct := by
      rw [numbers, List.map_append, List.map_singleton, List.nodup_append]
      refine ⟨consistent.numbersDistinct, List.nodup_singleton _, ?_⟩
      intro number old last isLast
      rw [List.mem_singleton.mp isLast]
      exact Nat.ne_of_lt (consistent.fresh number old)
    fresh := by
      intro number listed
      rw [numbers, List.map_append, List.mem_append] at listed
      rcases listed with old | new
      · exact Nat.lt_succ_of_lt (consistent.fresh number old)
      · rw [List.mem_singleton.mp new]
        exact Nat.lt_succ_self _
    deletedPassed := by
      intro block listed deleted
      rcases List.mem_append.mp listed with old | new
      · have behind := consistent.deletedPassed block old deleted
        rw [passed] at behind ⊢
        split at behind
        · exact absurd behind List.not_mem_nil
        · next position => simp [position, MainPosition.locked] at free
        · next position => simp [position, MainPosition.locked] at free
        · next position =>
          simp only [position]
          rw [numbers, List.map_append]
          exact List.mem_append_left _ behind
      · rw [List.mem_singleton.mp new] at deleted
        exact absurd deleted Bool.false_ne_true
    confirmedMarked := by
      intro block listed isConfirmed
      rcases List.mem_append.mp listed with old | new
      · exact consistent.confirmedMarked block old isConfirmed
      · rw [List.mem_singleton.mp new] at isConfirmed
        exact absurd isConfirmed Bool.false_ne_true
    atItem := fun number index position =>
      absurd position (notDeleting number index)
    printed := fun number index position =>
      absurd position (notDeleting number index)
    insertedFresh := fun number among =>
      Nat.lt_succ_of_lt (consistent.insertedFresh number among)
    insertedDeleted := by
      intro block listed among
      rcases List.mem_append.mp listed with old | new
      · exact consistent.insertedDeleted block old among
      · rw [List.mem_singleton.mp new] at among
        exact absurd (consistent.insertedFresh _ among) (Nat.lt_irrefl _)
    insertedMarked := consistent.insertedMarked
    insertedOnce := consistent.insertedOnce }

/--
A step that leaves the main thread and the headers of the records as they are
keeps the invariant if what it confirms is marked and not given up.
-/
theorem Consistent.of_confirming {state new : Recorder}
    (consistent : state.Consistent)
    (sameNumbers : new.numbers = state.numbers)
    (samePosition : new.position = state.position)
    (sameNext : new.nextNumber = state.nextNumber)
    (sameRows : new.rows = state.rows)
    (samePrunes : new.prunes = state.prunes)
    (stillMarked : ∀ number ∈ state.marked, number ∈ new.marked)
    (records :
      ∀ block ∈ new.blocks, ∃ old ∈ state.blocks,
        block.toYaampObject = old.toYaampObject ∧
          block.number = old.number ∧
          (block.confirmed = true → old.confirmed = true ∨
            block.number ∈ new.marked ∧ ¬ state.Doomed block.number)) :
    new.Consistent := by
  have sameInserted : new.inserted = state.inserted := by
    rw [inserted, sameRows, samePrunes, inserted]
  have samePassed : new.passed = state.passed := by
    rw [passed, samePosition, sameNumbers, passed]
  exact {
    unlocked := by
      intro block listed
      obtain ⟨old, among, sameHeader, -⟩ := records block listed
      rw [sameHeader]
      exact consistent.unlocked old among
    numbersDistinct := by
      rw [sameNumbers]
      exact consistent.numbersDistinct
    fresh := by
      rw [sameNumbers, sameNext]
      exact consistent.fresh
    deletedPassed := by
      intro block listed deleted
      obtain ⟨old, among, sameHeader, sameNumber, -⟩ := records block listed
      rw [sameHeader] at deleted
      rw [samePassed, sameNumber]
      exact consistent.deletedPassed old among deleted
    confirmedMarked := by
      intro block listed isConfirmed
      obtain ⟨old, among, -, sameNumber, how⟩ := records block listed
      rcases how isConfirmed with before | ⟨marked, -⟩
      · rw [sameNumber]
        exact stillMarked _ (consistent.confirmedMarked old among before)
      · exact marked
    atItem := by
      rw [samePosition, sameNumbers]
      exact consistent.atItem
    printed := by
      intro number index position block listed isNumber isConfirmed
      rw [samePosition] at position
      obtain ⟨old, among, -, sameNumber, how⟩ := records block listed
      rw [sameRows]
      rcases how isConfirmed with before | ⟨-, kept⟩
      · exact consistent.printed number index position old among
          (sameNumber.symm.trans isNumber) before
      · by_contra unprinted
        rw [isNumber] at kept
        exact kept ⟨by simp [position, MainPosition.deletes], unprinted⟩
    insertedFresh := by
      rw [sameInserted, sameNext]
      exact consistent.insertedFresh
    insertedDeleted := by
      intro block listed
      obtain ⟨old, among, sameHeader, sameNumber, -⟩ := records block listed
      rw [sameInserted, sameHeader, sameNumber, samePosition]
      exact consistent.insertedDeleted old among
    insertedMarked := by
      rw [sameInserted]
      exact fun number among =>
        stillMarked number (consistent.insertedMarked number among)
    insertedOnce := by
      rw [sameInserted]
      exact consistent.insertedOnce }

theorem Consistent.setCalls {state : Recorder}
    (consistent : state.Consistent) (calls : List ConfirmCall) :
    ({ state with calls := calls } : Recorder).Consistent :=
  consistent.of_confirming rfl rfl rfl rfl rfl (fun _ => id)
    fun block listed => ⟨block, listed, rfl, rfl, .inl⟩

theorem Consistent.findRecord {state : Recorder}
    (consistent : state.Consistent) (coind : YaampCoind) (coinid : Nat)
    (blockhash : CString) (answer : Option GetBlock) :
    (state.findRecord coind coinid blockhash answer).Consistent := by
  rw [Recorder.findRecord]
  split
  · exact consistent
  · dsimp only
    split
    · exact consistent
    · exact consistent.setCalls _

theorem Consistent.confirmRecord {state : Recorder}
    (consistent : state.Consistent) {index : Nat}
    (careful : state.Careful (.confirmRecord index)) :
    (state.confirmRecord index).Consistent := by
  rw [Recorder.confirmRecord]
  split
  · exact consistent
  next call isCall =>
  split
  · next copied =>
    have kept := (careful call isCall).2 copied
    have sameNumbers :=
      modifyRecord_numbers call.number BlockRecord.setConfirmed
        (fun _ => rfl) state.blocks
    refine consistent.of_confirming sameNumbers rfl rfl rfl rfl
      (fun _ => List.mem_append_left _) ?_
    intro block listed
    obtain ⟨old, among, rfl⟩ := mem_modifyRecord.mp listed
    split
    · next isNumber =>
      refine ⟨old, among, rfl, rfl, fun _ => .inr ⟨?_, ?_⟩⟩
      · exact List.mem_append_right _ (List.mem_singleton.mpr isNumber)
      · rw [← isNumber] at kept
        exact kept
    · exact ⟨old, among, rfl, rfl, .inl⟩
  · split
    · exact consistent.setCalls _
    · have sameNumbers :=
        modifyRecord_numbers call.number (BlockRecord.copyHash call.blockhash)
          (fun _ => rfl) state.blocks
      refine consistent.of_confirming sameNumbers rfl rfl rfl rfl
        (fun _ => id) ?_
      intro block listed
      obtain ⟨old, among, rfl⟩ := mem_modifyRecord.mp listed
      split <;> exact ⟨old, among, rfl, rfl, .inl⟩

/-! ## The statements of the main thread -/

section Main

variable {state : Recorder} (consistent : state.Consistent)
include consistent

/-- `block_prune` takes the lock. -/
theorem Consistent.enter (before : state.position = .beforeBlockPrune) :
    ({ state with position := .testing 0 } : Recorder).Consistent :=
  { consistent with
    deletedPassed := by
      intro block listed deleted
      have behind := consistent.deletedPassed block listed deleted
      rw [passed, before] at behind
      exact absurd behind List.not_mem_nil
    atItem := fun _ _ position => MainPosition.noConfusion position
    printed := fun _ _ position => MainPosition.noConfusion position
    insertedDeleted := by
      intro block listed among
      rcases consistent.insertedDeleted block listed among with
        deleted | ⟨index, elsewhere⟩
      · exact .inl deleted
      · rw [before] at elsewhere
        exact MainPosition.noConfusion elsewhere }

/-- What is in a query by now is deleted, while a record is being tested. -/
theorem Consistent.deleted_of_inserted {index : Nat}
    (position : state.position = .testing index) {block : BlockRecord}
    (listed : block ∈ state.blocks)
    (among : block.number ∈ state.inserted) :
    block.deleted = true := by
  rcases consistent.insertedDeleted block listed among with
    deleted | ⟨_, elsewhere⟩
  · exact deleted
  · rw [position] at elsewhere
    exact MainPosition.noConfusion elsewhere

/-- `block_prune` is at the end of the list. -/
theorem Consistent.leave {index : Nat}
    (position : state.position = .testing index) :
    ({ state with
        position := .beforeObjectPrune
        prunes := state.prunes ++ [state.rows]
        rows := [] } : Recorder).Consistent := by
  have sameInserted :
      ({ state with
          position := .beforeObjectPrune
          prunes := state.prunes ++ [state.rows]
          rows := [] } : Recorder).inserted = state.inserted := by
    simp [inserted]
  exact { consistent with
    deletedPassed := fun _ listed _ => number_mem_numbers listed
    atItem := fun _ _ position => MainPosition.noConfusion position
    printed := fun _ _ position => MainPosition.noConfusion position
    insertedFresh := sameInserted ▸ consistent.insertedFresh
    insertedDeleted := fun block listed among =>
      .inl (consistent.deleted_of_inserted position listed
        (sameInserted ▸ among))
    insertedMarked := sameInserted ▸ consistent.insertedMarked
    insertedOnce := sameInserted ▸ consistent.insertedOnce }

/-- `block_prune` prints a confirmed record. -/
theorem Consistent.print {index : Nat}
    (position : state.position = .testing index) {block : BlockRecord}
    (item : state.blocks[index]? = some block)
    (isConfirmed : block.confirmed = true) :
    ({ state with
        position := .deleting block.number index
        rows := state.rows ++ [block.row] } : Recorder).Consistent := by
  have listed := List.mem_of_getElem? item
  have inserted_print :
      ({ state with
          position := .deleting block.number index
          rows := state.rows ++ [block.row] } : Recorder).inserted =
        state.inserted ++ [block.number] := by
    simp [inserted, BlockRecord.row]
  exact { consistent with
    deletedPassed := by
      intro old among deleted
      have behind := consistent.deletedPassed old among deleted
      rw [passed, position] at behind
      exact behind
    atItem := by
      intro number i at_i
      obtain ⟨rfl, rfl⟩ := MainPosition.deleting.inj at_i
      rw [numbers, List.getElem?_map, item, Option.map_some]
    printed := by
      intro number i at_i _ _ _ _
      obtain ⟨rfl, rfl⟩ := MainPosition.deleting.inj at_i
      rw [List.map_append]
      exact List.mem_append_right _ List.mem_cons_self
    insertedFresh := by
      intro number among
      rw [inserted_print, List.mem_append, List.mem_singleton] at among
      rcases among with old | rfl
      · exact consistent.insertedFresh number old
      · exact consistent.fresh _ (number_mem_numbers listed)
    insertedDeleted := by
      intro old oldListed among
      rw [inserted_print, List.mem_append, List.mem_singleton] at among
      rcases among with again | isThis
      · exact .inl (consistent.deleted_of_inserted position oldListed again)
      · exact .inr ⟨index, by rw [isThis]⟩
    insertedMarked := by
      intro number among
      rw [inserted_print, List.mem_append, List.mem_singleton] at among
      rcases among with old | rfl
      · exact consistent.insertedMarked number old
      · exact consistent.confirmedMarked block listed isConfirmed
    insertedOnce := by
      rw [inserted_print, List.nodup_append]
      refine ⟨consistent.insertedOnce, List.nodup_singleton _, ?_⟩
      intro number old last isLast same
      rw [same, List.mem_singleton.mp isLast] at old
      exact consistent.not_inserted position item old }

/-- `block_prune` gives up an unconfirmed record. -/
theorem Consistent.giveUp {index : Nat}
    (position : state.position = .testing index) {block : BlockRecord}
    (item : state.blocks[index]? = some block)
    (unconfirmed : ¬ block.confirmed = true) :
    ({ state with
        position := .deleting block.number index } : Recorder).Consistent := by
  have listed := List.mem_of_getElem? item
  exact { consistent with
    deletedPassed := by
      intro old among deleted
      have behind := consistent.deletedPassed old among deleted
      rw [passed, position] at behind
      exact behind
    atItem := by
      intro number i at_i
      obtain ⟨rfl, rfl⟩ := MainPosition.deleting.inj at_i
      rw [numbers, List.getElem?_map, item, Option.map_some]
    printed := by
      intro number i at_i old among isNumber isConfirmed
      obtain ⟨rfl, rfl⟩ := MainPosition.deleting.inj at_i
      rw [consistent.eq_of_number_eq among listed isNumber] at isConfirmed
      exact absurd isConfirmed unconfirmed
    insertedDeleted := fun _ oldListed among =>
      .inl (consistent.deleted_of_inserted position oldListed among) }

/-- `block_prune` goes past a record that it leaves in the list. -/
theorem Consistent.goPast {index : Nat}
    (position : state.position = .testing index) :
    ({ state with position := .testing (index + 1) } :
      Recorder).Consistent :=
  { consistent with
    deletedPassed := by
      intro old among deleted
      have behind := consistent.deletedPassed old among deleted
      rw [passed, position] at behind
      exact List.take_subset_take_left _ (Nat.le_succ index) behind
    atItem := fun _ _ position => MainPosition.noConfusion position
    printed := fun _ _ position => MainPosition.noConfusion position
    insertedDeleted := fun _ oldListed among =>
      .inl (consistent.deleted_of_inserted position oldListed among) }

theorem Consistent.testRecord (algo : CString) (now : Int) {index : Nat}
    (position : state.position = .testing index) :
    (state.testRecord algo now index).Consistent := by
  rw [Recorder.testRecord]
  split
  · exact consistent.leave position
  next block item =>
  split
  · next isConfirmed => exact consistent.print position item isConfirmed
  · next unconfirmed =>
    split
    · exact consistent.giveUp position item unconfirmed
    · exact consistent.goPast position

/-- `object_delete` on the record that `block_prune` is at. -/
theorem Consistent.deleteRecord {number index : Nat}
    (position : state.position = .deleting number index) :
    ({ state with
        blocks := modifyRecord number BlockRecord.markDeleted state.blocks
        position := .testing (index + 1) } : Recorder).Consistent := by
  have item := consistent.atItem number index position
  have sameNumbers :=
    modifyRecord_numbers number BlockRecord.markDeleted (fun _ => rfl)
      state.blocks
  have longer :
      state.numbers.take (index + 1) =
        state.numbers.take index ++ [number] := by
    rw [List.take_add_one, item]
    rfl
  exact {
    unlocked := by
      intro block listed
      obtain ⟨old, among, rfl⟩ := mem_modifyRecord.mp listed
      split <;> exact consistent.unlocked old among
    numbersDistinct := by
      rw [numbers, sameNumbers]
      exact consistent.numbersDistinct
    fresh := by
      rw [numbers, sameNumbers]
      exact consistent.fresh
    deletedPassed := by
      intro block listed deleted
      have behind : block.number ∈ state.numbers.take (index + 1) := by
        obtain ⟨old, among, rfl⟩ := mem_modifyRecord.mp listed
        rw [longer, List.mem_append, List.mem_singleton]
        split at deleted
        · next isNumber =>
          rw [if_pos isNumber]
          exact .inr isNumber
        · next other =>
          rw [if_neg other]
          have before := consistent.deletedPassed old among deleted
          rw [passed, position] at before
          exact .inl before
      rw [passed]
      dsimp only
      rw [numbers, sameNumbers]
      exact behind
    confirmedMarked := by
      intro block listed
      obtain ⟨old, among, rfl⟩ := mem_modifyRecord.mp listed
      split <;> exact consistent.confirmedMarked old among
    atItem := fun _ _ position => MainPosition.noConfusion position
    printed := fun _ _ position => MainPosition.noConfusion position
    insertedFresh := consistent.insertedFresh
    insertedDeleted := by
      intro block listed again
      obtain ⟨old, among, rfl⟩ := mem_modifyRecord.mp listed
      split at again
      · next isNumber =>
        rw [if_pos isNumber]
        exact .inl rfl
      · next other =>
        rw [if_neg other]
        rcases consistent.insertedDeleted old among again with
          deleted | ⟨_, elsewhere⟩
        · exact .inl deleted
        · rw [position] at elsewhere
          exact absurd (MainPosition.deleting.inj elsewhere).1.symm other
    insertedMarked := consistent.insertedMarked
    insertedOnce := consistent.insertedOnce }

/-- `object_prune` frees exactly the deleted records. -/
theorem Consistent.freeBlocks_blocks :
    state.freeBlocks.blocks =
      state.blocks.filter fun block => !block.deleted := by
  have unlocked := consistent.unlocked
  rw [Recorder.freeBlocks, objectPrune]
  dsimp only
  generalize state.blocks = blocks at unlocked
  induction blocks with
  | nil =>
      rfl
  | cons block blocks ih =>
      have later := ih fun each listed =>
        unlocked each (List.mem_cons_of_mem _ listed)
      rw [List.filterMap_cons, List.filter_cons,
        BlockRecord.pruneStep_of_unlocked (unlocked block List.mem_cons_self),
        later]
      cases block.deleted <;> rfl

theorem Consistent.freeBlocks
    (position : state.position = .beforeObjectPrune) :
    ({ state.freeBlocks with
        position := .beforeBlockPrune } : Recorder).Consistent := by
  have blocks := consistent.freeBlocks_blocks
  have kept : ∀ block ∈ state.freeBlocks.blocks,
      block ∈ state.blocks ∧ block.deleted = false := by
    intro block listed
    rw [blocks, List.mem_filter] at listed
    exact ⟨listed.1, Bool.not_eq_true' _ |>.mp listed.2⟩
  have fewer :
      state.freeBlocks.numbers.Sublist state.numbers := by
    rw [numbers, blocks]
    exact List.filter_sublist.map BlockRecord.number
  exact {
    unlocked := fun block listed =>
      consistent.unlocked block (kept block listed).1
    numbersDistinct := consistent.numbersDistinct.sublist fewer
    fresh := fun number listed =>
      consistent.fresh number (fewer.subset listed)
    deletedPassed := by
      intro block listed deleted
      exact absurd deleted (Bool.eq_false_iff.mp (kept block listed).2)
    confirmedMarked := fun block listed =>
      consistent.confirmedMarked block (kept block listed).1
    atItem := fun _ _ position => MainPosition.noConfusion position
    printed := fun _ _ position => MainPosition.noConfusion position
    insertedFresh := consistent.insertedFresh
    insertedDeleted := by
      intro block listed among
      rcases consistent.insertedDeleted block (kept block listed).1 among with
        deleted | ⟨_, elsewhere⟩
      · exact .inl deleted
      · rw [position] at elsewhere
        exact MainPosition.noConfusion elsewhere
    insertedMarked := consistent.insertedMarked
    insertedOnce := consistent.insertedOnce }

end Main

theorem Consistent.main {state : Recorder} (consistent : state.Consistent)
    (algo : CString) (now : Int) : (state.main algo now).Consistent := by
  rw [Recorder.main]
  split
  · next position => exact consistent.enter position
  · next position => exact consistent.testRecord algo now position
  · next position => exact consistent.deleteRecord position
  · next position => exact consistent.freeBlocks position

theorem Consistent.step (algo : CString) {state : Recorder}
    {event : RecorderEvent} (consistent : state.Consistent)
    (careful : state.Careful event) :
    (state.step algo event).Consistent := by
  cases event with
  | blockAdd now data => exact consistent.add now data
  | blockConfirm coind coinid blockhash answer =>
      exact consistent.findRecord coind coinid blockhash answer
  | confirmRecord index => exact consistent.confirmRecord careful
  | main now => exact consistent.main algo now

end Recorder

end YiimpStratum.Block
