import Mathlib.Data.List.Nodup
import Mathlib.Data.Rat.Defs
import YiimpStratum.Library.Run
import YiimpStratum.Block.Notify
import YiimpStratum.Object

/-!
# Recording of blocks

The main loop writes the confirmed blocks to the database with `block_prune`
and frees their records with `object_prune` later in the same iteration.  A
record is deleted when its block is written, or when it has waited too long
for its confirmation.

`block_prune` and `block_add` take the lock of the list, `block_confirm` does
not: its statements come between any two of theirs.  Therefore a step here is
a statement.  `block_prune` tests a record in one step and deletes it in
another one; `block_confirm` finds its record, copies the hash and sets
`confirmed` in three.

The search of `block_confirm` is one step, since a record that it has passed
can never become the one that it looks for: a deleted record stays deleted,
and new ones come last.  `object_prune` is one step too, as it reads nothing
that `block_confirm` writes.  A search through an item of the list that is
freed meanwhile is left out, and so is the debugging variant of the lock,
which gives up after a second.  The text of the query is left out; its buffer
is unbounded here.
-/

namespace YiimpStratum.Block

open YiimpStratum
open YiimpStratum.Util

/-! ## Records -/

/-- The parameters of `block_add`. -/
structure BlockData where
  userid : Int
  workerid : Int
  coinid : Nat
  height : Int
  difficulty : Rat
  difficultyUser : Rat
  hash1 : CString
  hash2 : CString
  segwit : Bool
  deriving DecidableEq

/-- `YAAMP_BLOCK`, with a number of its own for every record. -/
structure BlockRecord extends YaampObject where
  number : Nat
  data : BlockData
  created : Int
  confirmed : Bool
  hash : CString
  deriving DecidableEq

/-- A row of the query on the table `blocks`. -/
structure BlockRow where
  number : Nat
  data : BlockData
  blockhash : CString
  time : Int
  deriving DecidableEq

namespace BlockRecord

/-- The row that `block_prune` prints for a record. -/
def row (block : BlockRecord) : BlockRow where
  number := block.number
  data := block.data
  blockhash := block.hash
  time := block.created

/-- The comparisons of `block_confirm`. -/
def isOf (coinid : Nat) (hash : CString) (block : BlockRecord) : Bool :=
  block.data.coinid == coinid && !block.deleted &&
    (block.data.hash1 == hash || block.data.hash2 == hash)

/-- The `strncpy` of `block_confirm`. -/
def copyHash (blockhash : CString) (block : BlockRecord) : BlockRecord :=
  { block with hash := blockhash.take 65 }

def setConfirmed (block : BlockRecord) : BlockRecord :=
  { block with confirmed := true }

/-- `object_delete` on a record. -/
def markDeleted (block : BlockRecord) : BlockRecord :=
  { block with toYaampObject := block.toYaampObject.delete }

def setHeader (header : YaampObject) (block : BlockRecord) : BlockRecord :=
  { block with toYaampObject := header }

/-- `object_prune` leaves a record alone that nothing locks. -/
theorem pruneStep_of_unlocked {block : BlockRecord}
    (unlocked : block.lockCount = 0) :
    pruneStep BlockRecord.toYaampObject setHeader block =
      if block.deleted then none else some block := by
  rw [pruneStep, YaampObject.prunable, unlocked, YaampObject.release, unlocked]
  simp [setHeader]

end BlockRecord

/-! ## The threads -/

/-- Where the main thread is in its iteration. -/
inductive MainPosition where
  | beforeBlockPrune
  /-- the loop of `block_prune` has come to this item of the list -/
  | testing (index : Nat)
  /-- `block_prune` is about to delete the record of this item -/
  | deleting (number index : Nat)
  | beforeObjectPrune
  deriving DecidableEq

/-- `block_prune` holds the lock of the list. -/
def MainPosition.locked : MainPosition → Bool
  | .beforeBlockPrune => false
  | .testing _ => true
  | .deleting _ _ => true
  | .beforeObjectPrune => false

/-- `block_prune` is about to delete this record. -/
def MainPosition.deletes (number : Nat) : MainPosition → Bool
  | .deleting current _ => current == number
  | _ => false

theorem MainPosition.exists_of_deletes {number : Nat}
    {position : MainPosition} (deletes : position.deletes number = true) :
    ∃ index, position = .deleting number index := by
  cases position with
  | deleting current index => exact ⟨index, by rw [eq_of_beq deletes]⟩
  | _ => exact absurd deletes Bool.false_ne_true

/-- A call of `block_confirm` that has found its record. -/
structure ConfirmCall where
  number : Nat
  blockhash : CString
  /-- it has seen the record unconfirmed and copied the hash -/
  copied : Bool

/-- `g_list_block`, the threads, and what came of the blocks. -/
structure Recorder where
  blocks : List BlockRecord
  position : MainPosition
  nextNumber : Nat
  calls : List ConfirmCall
  /-- the records that `block_confirm` set to confirmed -/
  marked : List Nat
  /-- the rows in the buffer of the `block_prune` that runs -/
  rows : List BlockRow
  /-- the rows of every finished `block_prune`; without rows, no query -/
  prunes : List (List BlockRow)

inductive RecorderEvent where
  | blockAdd (now : Int) (data : BlockData)
  | blockConfirm (coind : YaampCoind) (coinid : Nat) (blockhash : CString)
      (answer : Option GetBlock)
  /-- the next statement of a call that has found its record -/
  | confirmRecord (index : Nat)
  /-- the next statement of the main thread, with the time it reads -/
  | main (now : Int)

/-- Changes the record with this number, where it is listed. -/
def modifyRecord (number : Nat) (change : BlockRecord → BlockRecord)
    (blocks : List BlockRecord) : List BlockRecord :=
  blocks.map fun block => if block.number = number then change block else block

namespace Recorder

def initial : Recorder where
  blocks := []
  position := .beforeBlockPrune
  nextNumber := 0
  calls := []
  marked := []
  rows := []
  prunes := []

/-- The numbers of the records, in the order of the list. -/
def numbers (state : Recorder) : List Nat :=
  state.blocks.map BlockRecord.number

/-- `block_add`; its `AddTail` waits while `block_prune` has the lock. -/
def add (now : Int) (data : BlockData) (state : Recorder) : Recorder :=
  if state.position.locked then state
  else
    { state with
      blocks :=
        state.blocks ++
          [{ toYaampObject := .zeroed
             number := state.nextNumber
             data := data
             created := now
             confirmed := false
             hash := [] }]
      nextNumber := state.nextNumber + 1 }

/-- `block_confirm` up to the record that it finds. -/
def findRecord (coind : YaampCoind) (coinid : Nat) (blockhash : CString)
    (answer : Option GetBlock) (state : Recorder) : Recorder :=
  if blockhash.length < 64 then state
  else
    let hash := wantedHash coind blockhash answer
    match state.blocks.find? (BlockRecord.isOf coinid hash) with
    | none => state
    | some block =>
        { state with
          calls :=
            state.calls ++
              [{ number := block.number
                 blockhash := blockhash
                 copied := false }] }

/-- The record with this number is confirmed. -/
def hasConfirmed (number : Nat) (state : Recorder) : Bool :=
  state.blocks.any fun block => block.number == number && block.confirmed

/-- The statements of `block_confirm` on the record that it has found. -/
def confirmRecord (index : Nat) (state : Recorder) : Recorder :=
  match state.calls[index]? with
  | none => state
  | some call =>
      if call.copied then
        { state with
          blocks :=
            modifyRecord call.number BlockRecord.setConfirmed state.blocks
          calls := state.calls.eraseIdx index
          marked := state.marked ++ [call.number] }
      else if state.hasConfirmed call.number then
        { state with calls := state.calls.eraseIdx index }
      else
        { state with
          blocks :=
            modifyRecord call.number (BlockRecord.copyHash call.blockhash)
              state.blocks
          calls := state.calls.set index { call with copied := true } }

/-- `object_prune` on `g_list_block` -/
def freeBlocks (state : Recorder) : Recorder :=
  { state with
    blocks :=
      objectPrune BlockRecord.toYaampObject BlockRecord.setHeader
        state.blocks }

section Definitions

variable (algo : CString)

/-- A record has waited too long for its confirmation. -/
def expired (now : Int) (block : BlockRecord) : Bool :=
  let elapsed := if algo = "decred".toList then 60 * 15 else 30
  decide (block.created + elapsed < now)

/-- The loop of `block_prune` at an item of the list, or at its end. -/
def testRecord (now : Int) (index : Nat) (state : Recorder) : Recorder :=
  match state.blocks[index]? with
  | none =>
      -- the lock is released and the query sent
      { state with
        position := .beforeObjectPrune
        prunes := state.prunes ++ [state.rows]
        rows := [] }
  | some block =>
      if block.confirmed then
        { state with
          position := .deleting block.number index
          rows := state.rows ++ [block.row] }
      else if expired algo now block then
        { state with position := .deleting block.number index }
      else { state with position := .testing (index + 1) }

/-- A statement of `block_prune`, or `object_prune`. -/
def main (now : Int) (state : Recorder) : Recorder :=
  match state.position with
  | .beforeBlockPrune => { state with position := .testing 0 }
  | .testing index => state.testRecord algo now index
  | .deleting number index =>
      { state with
        blocks := modifyRecord number BlockRecord.markDeleted state.blocks
        position := .testing (index + 1) }
  | .beforeObjectPrune =>
      { state.freeBlocks with position := .beforeBlockPrune }

def step (state : Recorder) : RecorderEvent → Recorder
  | .blockAdd now data => state.add now data
  | .blockConfirm coind coinid blockhash answer =>
      state.findRecord coind coinid blockhash answer
  | .confirmRecord index => state.confirmRecord index
  | .main now => state.main algo now

end Definitions

/-! ## What is asked of a run -/

/-- The numbers of the records that were put in a query. -/
def inserted (state : Recorder) : List Nat :=
  state.prunes.flatten.map BlockRow.number ++
    state.rows.map BlockRow.number

/-- The records that the running `block_prune` has behind it. -/
def passed (state : Recorder) : List Nat :=
  match state.position with
  | .beforeBlockPrune => []
  | .testing index => state.numbers.take index
  | .deleting _ index => state.numbers.take index
  | .beforeObjectPrune => state.numbers

/-- The number of the `block_prune` that comes to the record next. -/
def nextPrune (state : Recorder) (number : Nat) : Nat :=
  if state.position.locked ∧ number ∈ state.passed then
    state.prunes.length + 1
  else state.prunes.length

/--
In a state and in what becomes of it: no block was put in a query twice, none
that was not confirmed, and a block that is confirmed and not deleted is in
the query of the `block_prune` that comes to it next.
-/
def RecordedOnce (state later : Recorder) : Prop :=
  state.inserted.Nodup ∧
    (∀ number ∈ state.inserted, number ∈ state.marked) ∧
    ∀ block ∈ state.blocks,
      block.confirmed = true → block.deleted = false →
        ∀ rows, later.prunes[state.nextPrune block.number]? = some rows →
          block.number ∈ rows.map BlockRow.number

/--
`block_prune` has found the record unconfirmed and too old, and is about to
delete it.
-/
def Doomed (state : Recorder) (number : Nat) : Prop :=
  state.position.deletes number = true ∧
    number ∉ state.rows.map BlockRow.number

instance (state : Recorder) (number : Nat) : Decidable (state.Doomed number) :=
  inferInstanceAs (Decidable (_ ∧ _))

/--
`block_confirm` writes to a record that is not freed, and does not set one to
confirmed that `block_prune` has just given up.
-/
def Careful (state : Recorder) : RecorderEvent → Prop
  | .confirmRecord index =>
      ∀ call ∈ state.calls[index]?,
        call.number ∈ state.numbers ∧
          (call.copied = true → ¬ state.Doomed call.number)
  | _ => True

instance (state : Recorder) :
    (event : RecorderEvent) → Decidable (state.Careful event)
  | .blockAdd _ _ => isTrue trivial
  | .blockConfirm _ _ _ _ => isTrue trivial
  | .confirmRecord _ => inferInstanceAs (Decidable (∀ call ∈ _, _))
  | .main _ => isTrue trivial

end Recorder

end YiimpStratum.Block
