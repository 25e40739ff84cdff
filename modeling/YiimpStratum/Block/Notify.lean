import Mathlib.Logic.Function.Basic
import YiimpStratum.Library.Run
import YiimpStratum.Util.Hex

/-!
# Confirmation of blocks

A block that the daemon accepted gets a record by `block_add`.  The wallet
reports new blocks to `client_update_block`, which keeps the last hash with
the coin and marks the record by `block_confirm`.  A report may come before
the record; therefore the submit handler compares the last hash once the
record is there.

The handlers interleave in any order, and so does `block_prune`.  A record
that is deleted stays in the list, where nothing looks at it any more.  What a
daemon answers to `getblock` is an input.
-/

namespace YiimpStratum.Block

open YiimpStratum.Util

/-- A hash as `string_be` writes it. -/
abbrev BlockHash := { hash : CString // hash.length = 64 }

/-- The fields of `YAAMP_BLOCK` that the confirmation reads or writes. -/
structure YaampBlock where
  coinid : Nat
  hash : CString
  hash1 : CString
  hash2 : CString
  confirmed : Bool
  deleted : Bool
  deriving DecidableEq

/-- The fields of `YAAMP_COIND` that the confirmation reads or writes. -/
structure YaampCoind where
  symbol : CString
  multialgos : Bool
  deleted : Bool
  lastnotifyhash : CString

/-- The hashes in an answer to `getblock`. -/
structure GetBlock where
  powHash : Option CString
  minedHash : Option CString
  phash : Option CString
  proofhash : Option CString

/-! ## The list of blocks -/

/-- `block_add` -/
def blockAdd (coinid : Nat) (hash1 hash2 : CString)
    (blocks : List YaampBlock) : List YaampBlock :=
  blocks ++
    [{ coinid := coinid
       hash := []
       hash1 := hash1
       hash2 := hash2
       confirmed := false
       deleted := false }]

namespace YaampBlock

/-- The comparisons of `block_confirm`. -/
def isOf (coinid : Nat) (hash : CString) (block : YaampBlock) : Bool :=
  block.coinid == coinid && !block.deleted &&
    (block.hash1 == hash || block.hash2 == hash)

def confirm (blockhash : CString) (block : YaampBlock) : YaampBlock :=
  if block.confirmed then block
  else { block with hash := blockhash.take 65, confirmed := true }

end YaampBlock

/-- The hash that `block_confirm` looks for, without an answer or with one. -/
def wantedHash (coind : YaampCoind) (blockhash : CString)
    (answer : Option GetBlock) : CString :=
  let asked :=
    if coind.deleted then none
    else if coind.multialgos then
      answer.bind fun block =>
        block.powHash.or (block.minedHash.or block.phash)
    else if coind.symbol = "ORB".toList then
      answer.bind fun block => block.proofhash
    else none
  (asked.getD blockhash).take 160

/-- The loop of `block_confirm`: the first record with the hash is marked. -/
def confirmFirst (coinid : Nat) (hash blockhash : CString) :
    List YaampBlock → List YaampBlock
  | [] => []
  | block :: blocks =>
      if block.isOf coinid hash then block.confirm blockhash :: blocks
      else block :: confirmFirst coinid hash blockhash blocks

/-- `block_confirm` -/
def blockConfirm (coind : YaampCoind) (coinid : Nat) (blockhash : CString)
    (answer : Option GetBlock) (blocks : List YaampBlock) :
    List YaampBlock :=
  if blockhash.length < 64 then blocks
  else
    confirmFirst coinid (wantedHash coind blockhash answer) blockhash blocks

/--
`block_prune`; `expired` tells by the position in the list that a record is
too old to wait for its confirmation.
-/
def blockPrune (expired : Nat → Bool) (blocks : List YaampBlock) :
    List YaampBlock :=
  blocks.mapIdx fun k block =>
    if block.confirmed || expired k then { block with deleted := true }
    else block

/-! ## The handlers -/

/-- The steps of `client_do_submit`; a record is numbered by its position. -/
inductive Position where
  | accepted
  | added (record : Nat)
  | equal (record : Nat)
  | finished (record : Nat)
  deriving DecidableEq

/-- A submit handler whose block the daemon accepted. -/
structure Submit where
  coinid : Nat
  hash1 : CString
  hashBe : BlockHash
  position : Position

/-- A `client_update_block`, after it has stored the hash. -/
structure Notify where
  coinid : Nat
  hash : CString
  finished : Bool

structure State where
  coins : Nat → YaampCoind
  blocks : List YaampBlock
  submits : List Submit
  notifies : List Notify

/-- A start with any coins and no blocks. -/
def State.initial (coins : Nat → YaampCoind) : State where
  coins := coins
  blocks := []
  submits := []
  notifies := []

namespace State

variable (state : State)

/-- Moves a submit handler on. -/
def setPosition (i : Nat) (position : Position) : State :=
  { state with
    submits :=
      state.submits.modify i fun submit =>
        { submit with position := position } }

/-- `coind_submit` returns with success. -/
def accept (coinid : Nat) (hash1 : CString) (hashBe : BlockHash) : State :=
  { state with
    submits :=
      state.submits ++
        [{ coinid := coinid
           hash1 := hash1
           hashBe := hashBe
           position := .accepted }] }

/-- The submit handler calls `block_add`. -/
def add (i : Nat) : State :=
  match state.submits[i]? with
  | none => state
  | some submit =>
      if submit.position = .accepted then
        { state.setPosition i (.added state.blocks.length) with
          blocks :=
            blockAdd submit.coinid submit.hash1 submit.hashBe state.blocks }
      else state

/-- The submit handler compares the last hash. -/
def compare (i : Nat) : State :=
  match state.submits[i]? with
  | none => state
  | some submit =>
      match submit.position with
      | .added record =>
          if (state.coins submit.coinid).lastnotifyhash = submit.hashBe then
            state.setPosition i (.equal record)
          else state.setPosition i (.finished record)
      | _ => state

/-- The submit handler calls `block_confirm`. -/
def confirm (i : Nat) (answer : Option GetBlock) : State :=
  match state.submits[i]? with
  | none => state
  | some submit =>
      match submit.position with
      | .equal record =>
          { state.setPosition i (.finished record) with
            blocks :=
              blockConfirm (state.coins submit.coinid) submit.coinid
                submit.hashBe answer state.blocks }
      | _ => state

/-- `client_update_block` stores the hash. -/
def notify (coinid : Nat) (hash : CString) : State :=
  if coinid = 0 then state
  else
    { state with
      coins :=
        Function.update state.coins coinid
          { state.coins coinid with lastnotifyhash := hash.take 160 }
      notifies :=
        state.notifies ++
          [{ coinid := coinid
             hash := hash
             finished := false }] }

/-- `client_update_block` calls `block_confirm`. -/
def notifyConfirm (j : Nat) (answer : Option GetBlock) : State :=
  match state.notifies[j]? with
  | none => state
  | some notify =>
      if notify.finished then state
      else
        { state with
          blocks :=
            blockConfirm (state.coins notify.coinid) notify.coinid notify.hash
              answer state.blocks
          notifies :=
            state.notifies.modify j fun notify =>
              { notify with finished := true } }

end State

/-- A step of one of the threads. -/
inductive Event where
  | accept (coinid : Nat) (hash1 : CString) (hashBe : BlockHash)
  | add (i : Nat)
  | compare (i : Nat)
  | confirm (i : Nat) (answer : Option GetBlock)
  | addAux (coinid : Nat) (hash : CString)
  | notify (coinid : Nat) (hash : CString)
  | notifyConfirm (j : Nat) (answer : Option GetBlock)
  | blockPrune (expired : Nat → Bool)

def step (state : State) : Event → State
  | .accept coinid hash1 hashBe => state.accept coinid hash1 hashBe
  | .add i => state.add i
  | .compare i => state.compare i
  | .confirm i answer => state.confirm i answer
  | .addAux coinid hash =>
      { state with blocks := blockAdd coinid hash [] state.blocks }
  | .notify coinid hash => state.notify coinid hash
  | .notifyConfirm j answer => state.notifyConfirm j answer
  | .blockPrune expired =>
      { state with blocks := Block.blockPrune expired state.blocks }

end YiimpStratum.Block
