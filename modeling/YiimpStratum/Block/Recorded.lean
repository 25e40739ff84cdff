import YiimpStratum.Block.Listed

/-!
# Blocks are recorded once

A record that is confirmed and not deleted waits for the `block_prune` that
comes to it next, which prints it and sends it with its query.  Only when it
is confirmed between the test of `block_prune` and the deletion is it lost.
-/

namespace YiimpStratum.Block

open YiimpStratum
open YiimpStratum.Util

namespace Recorder

/-! ## The next query -/

/--
A record waits for the query of a `block_prune`, is in the buffer of the one
that runs, or is in its query.
-/
inductive Awaited (state : Recorder) (number prune : Nat) : Prop where
  | waiting (block : BlockRecord) (listed : block ∈ state.blocks)
      (isNumber : block.number = number)
      (isConfirmed : block.confirmed = true) (alive : block.deleted = false)
      (next : state.nextPrune number = prune)
  | printed (running : state.position.locked = true)
      (isCurrent : state.prunes.length = prune)
      (among : number ∈ state.rows.map BlockRow.number)
  | written (rows : List BlockRow) (isPrune : state.prunes[prune]? = some rows)
      (among : number ∈ rows.map BlockRow.number)

/-- The `block_prune` to come changes when the record falls behind. -/
theorem nextPrune_congr {state new : Recorder} {number : Nat}
    (samePrunes : new.prunes = state.prunes)
    (sameSide :
      new.position.locked = true ∧ number ∈ new.passed ↔
        state.position.locked = true ∧ number ∈ state.passed) :
    new.nextPrune number = state.nextPrune number := by
  rw [nextPrune, samePrunes, nextPrune]
  exact if_congr sameSide rfl rfl

theorem passed_of_testing {state : Recorder} {index : Nat}
    (position : state.position = .testing index) :
    state.passed = state.numbers.take index := by
  rw [passed, position]

/-- Every step of another thread leaves a confirmed record confirmed. -/
theorem Awaited.of_confirming {state new : Recorder} {number prune : Nat}
    (awaited : state.Awaited number prune)
    (sameNumbers : new.numbers = state.numbers)
    (samePosition : new.position = state.position)
    (sameRows : new.rows = state.rows)
    (samePrunes : new.prunes = state.prunes)
    (records :
      ∀ old ∈ state.blocks, ∃ block ∈ new.blocks,
        block.toYaampObject = old.toYaampObject ∧
          block.number = old.number ∧
          (old.confirmed = true → block.confirmed = true)) :
    new.Awaited number prune := by
  cases awaited with
  | waiting old among isNumber isConfirmed alive next =>
      obtain ⟨block, listed, sameHeader, sameNumber, stays⟩ :=
        records old among
      refine .waiting block listed (sameNumber.trans isNumber)
        (stays isConfirmed) ?_ ?_
      · rw [sameHeader]
        exact alive
      · rw [← next]
        refine nextPrune_congr samePrunes ?_
        rw [passed, samePosition, sameNumbers, passed]
  | printed running isCurrent among =>
      refine .printed ?_ ?_ ?_
      · rw [samePosition]
        exact running
      · rw [samePrunes]
        exact isCurrent
      · rw [sameRows]
        exact among
  | written rows isPrune among =>
      refine .written rows ?_ among
      rw [samePrunes]
      exact isPrune

/-- A statement of `block_prune` that leaves the records as they are. -/
theorem Awaited.of_testing {state new : Recorder} {number prune : Nat}
    (awaited : state.Awaited number prune)
    (sameBlocks : new.blocks = state.blocks)
    (samePrunes : new.prunes = state.prunes)
    (running : new.position.locked = true)
    (stillPrinted : ∀ row ∈ state.rows, row ∈ new.rows)
    (sameSide :
      ∀ block ∈ state.blocks,
        block.number = number → block.confirmed = true →
          (number ∈ new.passed ↔
            state.position.locked = true ∧ number ∈ state.passed)) :
    new.Awaited number prune := by
  cases awaited with
  | waiting block listed isNumber isConfirmed alive next =>
      refine .waiting block ?_ isNumber isConfirmed alive ?_
      · rw [sameBlocks]
        exact listed
      · rw [← next]
        refine nextPrune_congr samePrunes ?_
        rw [← sameSide block listed isNumber isConfirmed]
        exact and_iff_right running
  | printed _ isCurrent among =>
      refine .printed running ?_ ?_
      · rw [samePrunes]
        exact isCurrent
      · obtain ⟨row, printed, isNumber⟩ := List.mem_map.mp among
        exact List.mem_map.mpr ⟨row, stillPrinted row printed, isNumber⟩
  | written rows isPrune among =>
      refine .written rows ?_ among
      rw [samePrunes]
      exact isPrune

section Waiting

variable {state : Recorder} {number prune : Nat}

theorem Awaited.add (awaited : state.Awaited number prune) (now : Int)
    (data : BlockData) : (state.add now data).Awaited number prune := by
  rw [Recorder.add]
  split
  · exact awaited
  next free =>
  cases awaited with
  | waiting block listed isNumber isConfirmed alive next =>
      refine .waiting block (List.mem_append_left _ listed) isNumber
        isConfirmed alive ?_
      rw [nextPrune, if_neg fun held => free held.1]
      rw [nextPrune, if_neg fun held => free held.1] at next
      exact next
  | printed running isCurrent among => exact absurd running free
  | written rows isPrune among => exact .written rows isPrune among

theorem Awaited.findRecord (awaited : state.Awaited number prune)
    (coind : YaampCoind) (coinid : Nat) (blockhash : CString)
    (answer : Option GetBlock) :
    (state.findRecord coind coinid blockhash answer).Awaited number prune := by
  rw [Recorder.findRecord]
  split
  · exact awaited
  dsimp only
  split
  · exact awaited
  · exact awaited.of_confirming rfl rfl rfl rfl
      fun old among => ⟨old, among, rfl, rfl, id⟩

theorem Awaited.modifyRecord (awaited : state.Awaited number prune)
    (target : Nat) (change : BlockRecord → BlockRecord)
    (sameHeader :
      ∀ block, (change block).toYaampObject = block.toYaampObject)
    (sameNumber : ∀ block, (change block).number = block.number)
    (stays :
      ∀ block, block.confirmed = true → (change block).confirmed = true)
    (calls : List ConfirmCall) (marked : List Nat) :
    ({ state with
        blocks := Block.modifyRecord target change state.blocks
        calls := calls
        marked := marked } : Recorder).Awaited number prune := by
  refine awaited.of_confirming
    (modifyRecord_numbers target change sameNumber state.blocks) rfl rfl rfl ?_
  intro old among
  refine ⟨_, mem_modifyRecord.mpr ⟨old, among, rfl⟩, ?_⟩
  split
  · exact ⟨sameHeader old, sameNumber old, stays old⟩
  · exact ⟨rfl, rfl, id⟩

theorem Awaited.confirmRecord (awaited : state.Awaited number prune)
    (index : Nat) : (state.confirmRecord index).Awaited number prune := by
  rw [Recorder.confirmRecord]
  split
  · exact awaited
  next call _ =>
  split
  · exact awaited.modifyRecord call.number BlockRecord.setConfirmed
      (fun _ => rfl) (fun _ => rfl) (fun _ _ => rfl) _ _
  split
  · exact awaited.of_confirming rfl rfl rfl rfl
      fun old among => ⟨old, among, rfl, rfl, id⟩
  · exact awaited.modifyRecord call.number
      (BlockRecord.copyHash call.blockhash)
      (fun _ => rfl) (fun _ => rfl) (fun _ => id) _ state.marked

/-- Queries that are sent stay as they are. -/
theorem written_append {rows written : List BlockRow}
    (isPrune : state.prunes[prune]? = some rows) :
    (state.prunes ++ [written])[prune]? = some rows := by
  have bound := (List.getElem?_eq_some_iff.mp isPrune).1
  rw [List.getElem?_append_left bound, isPrune]

/-- At the end of the list all records are behind `block_prune`. -/
theorem Awaited.sendQuery (awaited : state.Awaited number prune)
    {index : Nat} (position : state.position = .testing index)
    (last : state.blocks[index]? = none) :
    ({ state with
        position := .beforeObjectPrune
        prunes := state.prunes ++ [state.rows]
        rows := [] } : Recorder).Awaited number prune := by
  cases awaited with
  | waiting block listed isNumber isConfirmed alive next =>
      refine .waiting block listed isNumber isConfirmed alive ?_
      have all : state.numbers.length ≤ index := by
        rw [numbers, List.length_map]
        exact List.getElem?_eq_none_iff.mp last
      have behind : number ∈ state.passed := by
        rw [passed_of_testing position, List.take_of_length_le all, ← isNumber]
        exact number_mem_numbers listed
      have holds : state.position.locked = true := by
        rw [position]
        rfl
      rw [nextPrune, if_pos ⟨holds, behind⟩] at next
      rw [nextPrune, if_neg fun held => Bool.false_ne_true held.1]
      rw [List.length_append, List.length_singleton]
      exact next
  | printed running isCurrent among =>
      refine .written state.rows ?_ among
      rw [← isCurrent]
      exact List.getElem?_concat_length
  | written rows isPrune among =>
      exact .written rows (written_append isPrune) among

theorem Awaited.testRecord (consistent : state.Consistent)
    (awaited : state.Awaited number prune) (algo : CString) (now : Int)
    {index : Nat} (position : state.position = .testing index) :
    (state.testRecord algo now index).Awaited number prune := by
  have behind := passed_of_testing position
  have holds : state.position.locked = true := by
    rw [position]
    rfl
  rw [Recorder.testRecord]
  split
  · next last => exact awaited.sendQuery position last
  next item isItem =>
  split
  · refine awaited.of_testing rfl rfl rfl (fun _ => List.mem_append_left _) ?_
    intro _ _ _ _
    rw [behind, and_iff_right holds]
    rfl
  next unconfirmed =>
  split
  · refine awaited.of_testing rfl rfl rfl (fun _ => id) ?_
    intro _ _ _ _
    rw [behind, and_iff_right holds]
    rfl
  · -- the item is unconfirmed, so it is not the record
    refine awaited.of_testing rfl rfl rfl (fun _ => id) ?_
    intro block listed isNumber isConfirmed
    have other : item.number ≠ number := by
      intro same
      have this :=
        consistent.eq_of_number_eq (List.mem_of_getElem? isItem) listed
          (same.trans isNumber.symm)
      exact unconfirmed (this ▸ isConfirmed)
    rw [behind, and_iff_right holds]
    change number ∈ state.numbers.take (index + 1) ↔ _
    rw [List.take_add_one, numbers, List.getElem?_map, isItem]
    simp [other.symm]

theorem Awaited.deleteRecord (consistent : state.Consistent)
    (awaited : state.Awaited number prune) {target index : Nat}
    (position : state.position = .deleting target index) :
    ({ state with
        blocks := Block.modifyRecord target BlockRecord.markDeleted state.blocks
        position := .testing (index + 1) } :
      Recorder).Awaited number prune := by
  have behind : state.passed = state.numbers.take index := by
    rw [passed, position]
  have item := consistent.atItem target index position
  cases awaited with
  | waiting block listed isNumber isConfirmed alive next =>
      by_cases isTarget : number = target
      · -- it is confirmed, so it has been printed
        have printed :=
          consistent.printed target index position block listed
            (isNumber.trans isTarget) isConfirmed
        rw [isTarget] at next ⊢
        have ahead := consistent.not_mem_take item
        rw [nextPrune, behind, if_neg fun held => ahead held.2] at next
        exact .printed rfl next printed
      · have stays : ¬ block.number = target := isNumber ▸ isTarget
        refine .waiting block
          (mem_modifyRecord.mpr ⟨block, listed, if_neg stays⟩) isNumber
          isConfirmed alive ?_
        have sameNumbers :=
          modifyRecord_numbers target BlockRecord.markDeleted (fun _ => rfl)
            state.blocks
        have sameMember :
            number ∈ state.numbers.take (index + 1) ↔
              number ∈ state.numbers.take index := by
          rw [List.take_add_one, item]
          simp [isTarget]
        rw [← next]
        refine nextPrune_congr rfl ?_
        rw [behind, position, passed, numbers]
        dsimp only
        rw [sameNumbers]
        exact and_congr_right fun _ => sameMember
  | printed running isCurrent among => exact .printed rfl isCurrent among
  | written rows isPrune among => exact .written rows isPrune among

theorem Awaited.freeBlocks (consistent : state.Consistent)
    (awaited : state.Awaited number prune)
    (position : state.position = .beforeObjectPrune) :
    ({ state.freeBlocks with
        position := .beforeBlockPrune } : Recorder).Awaited number prune := by
  cases awaited with
  | waiting block listed isNumber isConfirmed alive next =>
      refine .waiting block ?_ isNumber isConfirmed alive ?_
      · dsimp only
        rw [consistent.freeBlocks_blocks, List.mem_filter, alive]
        exact ⟨listed, rfl⟩
      · rw [nextPrune, position] at next
        exact next
  | printed running isCurrent among =>
      rw [position] at running
      exact absurd running Bool.false_ne_true
  | written rows isPrune among => exact .written rows isPrune among

theorem Awaited.main (consistent : state.Consistent)
    (awaited : state.Awaited number prune) (algo : CString) (now : Int) :
    (state.main algo now).Awaited number prune := by
  rw [Recorder.main]
  split
  · next position =>
    refine awaited.of_testing rfl rfl rfl (fun _ => id) ?_
    intro _ _ _ _
    rw [passed_of_testing rfl, List.take_zero, position]
    exact iff_of_false List.not_mem_nil fun held => Bool.false_ne_true held.1
  · next position => exact awaited.testRecord consistent algo now position
  · next position => exact awaited.deleteRecord consistent position
  · next position => exact awaited.freeBlocks consistent position

theorem Awaited.step (consistent : state.Consistent)
    (awaited : state.Awaited number prune) (algo : CString)
    (event : RecorderEvent) :
    (state.step algo event).Awaited number prune := by
  cases event with
  | blockAdd now data => exact awaited.add now data
  | blockConfirm coind coinid blockhash answer =>
      exact awaited.findRecord coind coinid blockhash answer
  | confirmRecord index => exact awaited.confirmRecord index
  | main now => exact awaited.main consistent algo now

/-- When the query of the `block_prune` is sent, the record is in it. -/
theorem Awaited.mem_rows (awaited : state.Awaited number prune)
    {rows : List BlockRow} (sent : state.prunes[prune]? = some rows) :
    number ∈ rows.map BlockRow.number := by
  have bound := (List.getElem?_eq_some_iff.mp sent).1
  cases awaited with
  | waiting block listed isNumber isConfirmed alive next =>
      rw [nextPrune] at next
      split at next <;> omega
  | printed running isCurrent among =>
      exact absurd bound (by rw [isCurrent]; exact Nat.lt_irrefl _)
  | written others isPrune among =>
      rw [isPrune] at sent
      rw [← Option.some.inj sent]
      exact among

end Waiting

section Runs

variable (algo : CString)

theorem consistent_after {state : Recorder} (consistent : state.Consistent)
    {events : List RecorderEvent}
    (careful : Run.EveryStep (step algo) Careful state events) :
    (Run.after (step algo) state events).Consistent :=
  Run.invariant_after_of_everyStep
    (fun _ _ before allowed => before.step algo allowed) consistent careful

theorem awaited_after {state : Recorder} (consistent : state.Consistent)
    {number prune : Nat} (awaited : state.Awaited number prune)
    {events : List RecorderEvent}
    (careful : Run.EveryStep (step algo) Careful state events) :
    (Run.after (step algo) state events).Awaited number prune := by
  have preserved (before : Recorder) (event : RecorderEvent)
      (holds : before.Consistent ∧ before.Awaited number prune)
      (allowed : before.Careful event) :
      (before.step algo event).Consistent ∧
        (before.step algo event).Awaited number prune :=
    ⟨holds.1.step algo allowed, holds.2.step holds.1 algo event⟩
  exact
    (Run.invariant_after_of_everyStep preserved ⟨consistent, awaited⟩
      careful).2

/--
In a run of careful steps blocks are recorded at most once, none unconfirmed,
and the confirmed ones by the next `block_prune`.
-/
theorem recordedOnce_of_careful (events more : List RecorderEvent)
    (careful :
      Run.EveryStep (step algo) Careful initial (events ++ more)) :
    RecordedOnce (Run.after (step algo) initial events)
      (Run.after (step algo) initial (events ++ more)) := by
  obtain ⟨before, afterwards⟩ := Run.EveryStep.append_iff.mp careful
  have consistent := consistent_after algo consistent_initial before
  refine ⟨consistent.insertedOnce, consistent.insertedMarked, ?_⟩
  intro block listed isConfirmed alive rows sent
  have awaited :=
    awaited_after algo consistent
      (.waiting block listed rfl isConfirmed alive rfl) afterwards
  rw [Run.after, List.foldl_append] at sent
  exact awaited.mem_rows sent

end Runs

/-! ## A record that is given up -/

section GivenUp

variable (algo : CString)

/-- `block_prune` prints the item and deletes it. -/
theorem step_step_of_confirmed {state : Recorder} {index : Nat}
    (position : state.position = .testing index) {block : BlockRecord}
    (item : state.blocks[index]? = some block)
    (isConfirmed : block.confirmed = true) (now : Int) :
    step algo (step algo state (.main now)) (.main now) =
      { state with
        position := .testing (index + 1)
        rows := state.rows ++ [block.row]
        blocks :=
          modifyRecord block.number BlockRecord.markDeleted state.blocks } := by
  have printed :
      step algo state (.main now) =
        { state with
          position := .deleting block.number index
          rows := state.rows ++ [block.row] } := by
    rw [step, Recorder.main, position]
    dsimp only
    rw [testRecord, item]
    dsimp only
    rw [if_pos isConfirmed]
  rw [printed]
  rfl

/-- In its second of creation an unconfirmed record is not too old. -/
theorem step_of_unconfirmed {state : Recorder} {index : Nat}
    (position : state.position = .testing index) {block : BlockRecord}
    (item : state.blocks[index]? = some block)
    (unconfirmed : ¬ block.confirmed = true) :
    step algo state (.main block.created) =
      { state with position := .testing (index + 1) } := by
  have young : ¬ expired algo block.created block = true := by
    rw [expired]
    split <;> simp
  rw [step, Recorder.main, position]
  dsimp only
  rw [testRecord, item]
  dsimp only
  rw [if_neg unconfirmed, if_neg young]

/--
A record that lies behind `block_prune` and is not printed is not in the query
that it sends.
-/
theorem exists_unwritten {state : Recorder} {index : Nat}
    (position : state.position = .testing index)
    (distinct : state.numbers.Nodup) {number : Nat}
    (behind : number ∈ state.numbers.take index)
    (unprinted : number ∉ state.rows.map BlockRow.number) :
    ∃ more rows,
      (Run.after (step algo) state more).prunes[state.prunes.length]? =
          some rows ∧
        number ∉ rows.map BlockRow.number := by
  induction ahead : state.blocks.length - index
    generalizing state index with
  | zero =>
      have last : state.blocks[index]? = none :=
        List.getElem?_eq_none (Nat.sub_eq_zero_iff_le.mp ahead)
      refine ⟨[.main 0], state.rows, ?_, unprinted⟩
      rw [Run.after_cons, Run.after_nil, step, Recorder.main, position]
      dsimp only
      rw [testRecord, last]
      exact List.getElem?_concat_length
  | succ left ih =>
      have bound : index < state.blocks.length := by omega
      obtain ⟨block, item⟩ : ∃ block, state.blocks[index]? = some block :=
        ⟨_, List.getElem?_eq_getElem bound⟩
      have shorter : state.blocks.length - (index + 1) = left := by omega
      have stillBehind : number ∈ state.numbers.take (index + 1) :=
        List.take_subset_take_left _ (Nat.le_succ index) behind
      by_cases isConfirmed : block.confirmed = true
      · have sameNumbers :=
          modifyRecord_numbers block.number BlockRecord.markDeleted
            (fun _ => rfl) state.blocks
        have other : number ≠ block.number := by
          rintro rfl
          have itemNumber : state.numbers[index]? = some block.number := by
            rw [numbers, List.getElem?_map, item, Option.map_some]
          exact not_mem_take_of_nodup distinct itemNumber behind
        have next :=
          step_step_of_confirmed algo position item isConfirmed 0
        have positionNext :
            (step algo (step algo state (.main 0)) (.main 0)).position =
              .testing (index + 1) := by
          rw [next]
        obtain ⟨more, rows, sent, unwritten⟩ :=
          ih positionNext
            (by
              rw [next, numbers, sameNumbers]
              exact distinct)
            (by
              rw [next, numbers, sameNumbers]
              exact stillBehind)
            (by
              rw [next, List.map_append, List.mem_append, not_or]
              refine ⟨unprinted, fun last => ?_⟩
              exact other (List.mem_singleton.mp last))
            (by
              rw [next, modifyRecord, List.length_map]
              exact shorter)
        refine ⟨.main 0 :: .main 0 :: more, rows, ?_, unwritten⟩
        rw [next] at sent
        rw [Run.after_cons, Run.after_cons, next]
        exact sent
      · have next := step_of_unconfirmed algo position item isConfirmed
        have positionNext :
            (step algo state (.main block.created)).position =
              .testing (index + 1) := by
          rw [next]
        obtain ⟨more, rows, sent, unwritten⟩ :=
          ih positionNext (next ▸ distinct) (next ▸ stillBehind)
            (next ▸ unprinted) (next ▸ shorter)
        refine ⟨.main block.created :: more, rows, ?_, unwritten⟩
        rw [next] at sent
        rw [Run.after_cons, next]
        exact sent

/-- The same for the record that is about to be deleted. -/
theorem exists_unwritten_of_deleting {state : Recorder} {number index : Nat}
    (position : state.position = .deleting number index)
    (distinct : state.numbers.Nodup)
    (item : state.numbers[index]? = some number)
    (unprinted : number ∉ state.rows.map BlockRow.number) :
    ∃ more rows,
      (Run.after (step algo) state more).prunes[state.prunes.length]? =
          some rows ∧
        number ∉ rows.map BlockRow.number := by
  have deletes :
      step algo state (.main 0) =
        { state with
          blocks := modifyRecord number BlockRecord.markDeleted state.blocks
          position := .testing (index + 1) } := by
    rw [step, Recorder.main, position]
  have sameNumbers : (step algo state (.main 0)).numbers = state.numbers := by
    rw [deletes]
    exact modifyRecord_numbers number BlockRecord.markDeleted (fun _ => rfl)
      state.blocks
  have behind : number ∈ state.numbers.take (index + 1) := by
    rw [List.take_add_one, item]
    exact List.mem_append_right _ List.mem_cons_self
  obtain ⟨more, rows, sent, unwritten⟩ :=
    exists_unwritten algo (by rw [deletes]) (sameNumbers ▸ distinct)
      (sameNumbers ▸ behind)
      (by
        rw [deletes]
        exact unprinted)
  refine ⟨.main 0 :: more, rows, ?_, unwritten⟩
  rw [deletes] at sent
  rw [Run.after_cons, deletes]
  exact sent

theorem confirmRecord_of_copied {state : Recorder} {index : Nat}
    {call : ConfirmCall} (isCall : state.calls[index]? = some call)
    (copied : call.copied = true) :
    state.confirmRecord index =
      { state with
        blocks :=
          modifyRecord call.number BlockRecord.setConfirmed state.blocks
        calls := state.calls.eraseIdx index
        marked := state.marked ++ [call.number] } := by
  rw [Recorder.confirmRecord, isCall]
  dsimp only
  rw [if_pos copied]

/-- A record is deleted once. -/
theorem Consistent.alive_of_deleting {state : Recorder}
    (consistent : state.Consistent) {number index : Nat}
    (position : state.position = .deleting number index)
    {block : BlockRecord} (listed : block ∈ state.blocks)
    (isNumber : block.number = number) : block.deleted = false := by
  by_contra deleted
  have behind :=
    consistent.deletedPassed block listed (Bool.eq_true_of_not_eq_false deleted)
  rw [passed, position, isNumber] at behind
  exact consistent.not_mem_take (consistent.atItem number index position) behind

/-- What is set to confirmed after it has been given up is not recorded. -/
theorem not_recordedOnce_of_doomed {state : Recorder}
    (consistent : state.Consistent) {index : Nat} {call : ConfirmCall}
    (isCall : state.calls[index]? = some call) (copied : call.copied = true)
    (listed : call.number ∈ state.numbers)
    (doomed : state.Doomed call.number) :
    ∃ more,
      ¬ RecordedOnce (state.confirmRecord index)
        (Run.after (step algo) (state.confirmRecord index) more) := by
  obtain ⟨item, position⟩ := MainPosition.exists_of_deletes doomed.1
  have isItem := consistent.atItem call.number item position
  obtain ⟨old, among, isNumber⟩ := mem_numbers.mp listed
  have alive := consistent.alive_of_deleting position among isNumber
  have confirms := confirmRecord_of_copied isCall copied
  have confirmed :
      old.setConfirmed ∈ (state.confirmRecord index).blocks := by
    rw [confirms]
    exact mem_modifyRecord.mpr ⟨old, among, if_pos isNumber⟩
  have sameNumbers : (state.confirmRecord index).numbers = state.numbers := by
    rw [confirms]
    exact modifyRecord_numbers call.number BlockRecord.setConfirmed
      (fun _ => rfl) state.blocks
  have samePosition :
      (state.confirmRecord index).position = .deleting call.number item := by
    rw [confirms]
    exact position
  have sameRows : (state.confirmRecord index).rows = state.rows := by
    rw [confirms]
  obtain ⟨more, rows, sent, unwritten⟩ :=
    exists_unwritten_of_deleting algo samePosition
      (by
        rw [sameNumbers]
        exact consistent.numbersDistinct)
      (by
        rw [sameNumbers]
        exact isItem)
      (by
        rw [sameRows]
        exact doomed.2)
  have ahead :
      call.number ∉ (state.confirmRecord index).passed := by
    rw [passed, samePosition, sameNumbers]
    exact consistent.not_mem_take isItem
  have next :
      (state.confirmRecord index).nextPrune old.setConfirmed.number =
        (state.confirmRecord index).prunes.length := by
    rw [show old.setConfirmed.number = call.number from isNumber]
    exact if_neg fun held => ahead held.2
  refine ⟨more, fun recorded => unwritten ?_⟩
  have written := recorded.2.2 old.setConfirmed confirmed rfl alive
  rw [next] at written
  exact isNumber ▸ written rows sent

end GivenUp

/-- A block that is found, confirmed and written before it is freed. -/
theorem recordedOnce_of_careful_confirmed :
    let data : BlockData :=
      ⟨1, 2, 3, 100, 5, 7, "pow".toList, List.replicate 64 'a', false⟩
    let coind : YaampCoind := ⟨"ZEC".toList, false, false, []⟩
    let events : List RecorderEvent :=
      [.blockAdd 1000 data,
        .blockConfirm coind 3 (List.replicate 64 'a') none,
        .main 1020, .confirmRecord 0, .confirmRecord 0]
    let more : List RecorderEvent := [.main 1020, .main 1020, .main 1020]
    let algo := "equihash".toList
    let written := Run.after (step algo) initial (events ++ more)
    written.prunes.map (List.map BlockRow.number) = [[0]] ∧
      RecordedOnce (Run.after (step algo) initial events) written := by
  intro data coind events more algo written
  exact ⟨by decide, recordedOnce_of_careful algo events more (by decide)⟩

/-- A block that is confirmed when `block_prune` has just given it up. -/
theorem not_recordedOnce_givenUp :
    ¬ ∀ events more,
      RecordedOnce (Run.after (step "equihash".toList) initial events)
        (Run.after (step "equihash".toList) initial (events ++ more)) := by
  intro all
  let data : BlockData :=
    ⟨1, 2, 3, 100, 5, 7, "pow".toList, List.replicate 64 'a', false⟩
  let coind : YaampCoind := ⟨"ZEC".toList, false, false, []⟩
  let events : List RecorderEvent :=
    [.blockAdd 1000 data,
      .blockConfirm coind 3 (List.replicate 64 'a') none,
      .main 1031, .confirmRecord 0, .main 1031, .confirmRecord 0]
  let more : List RecorderEvent := [.main 1031, .main 1031]
  let state := Run.after (step "equihash".toList) initial events
  have confirmed : ∃ block ∈ state.blocks, block.number = 0 ∧
      block.confirmed = true ∧ block.deleted = false := by decide
  obtain ⟨block, listed, isFirst, isConfirmed, alive⟩ := confirmed
  have sent :
      (Run.after (step "equihash".toList) initial
          (events ++ more)).prunes[state.nextPrune 0]? = some [] := by
    decide
  have lost := (all events more).2.2 block listed isConfirmed alive
  rw [isFirst] at lost
  exact List.not_mem_nil (lost [] sent)

end Recorder

end YiimpStratum.Block
