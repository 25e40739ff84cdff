import YiimpStratum.Library.MerkleTree
import YiimpStratum.Template.Merkle
import YiimpStratum.Util.HexText

/-!
# Merkle roots of templates

`merkle_steps` leaves out the first leaf, the coinbase, which is not known
when the template is made.  An empty string stands in its place on every
level, and only the other nodes are hashed.  `merkle_with_first` supplies the
leaf afterwards.

The steps are the branch of the first leaf, digit by digit.  So the fold gives
the root of all leaves, as a block header has it.
-/

namespace YiimpStratum.Template

open YiimpStratum.Util

section Definitions

variable (sha256Double : Sha256Double)

/-- A node of the tree of a block over the bytes of its two children. -/
def merkleNode (left right : List UInt8) : List UInt8 :=
  (sha256Double (left ++ right)).toList

/-- The root over the transactions of a block. -/
def merkleRoot (leaves : List (List UInt8)) : Option (List UInt8) :=
  MerkleTree.paddedRoot (merkleNode sha256Double) leaves

end Definitions

/-! ## One level -/

/-- The pair at the start takes no part in the padding. -/
theorem repeatLast_cons_cons (first second : CString) (rest : List CString) :
    repeatLast (first :: second :: rest) =
      first :: second :: repeatLast rest := by
  have parity :
      (first :: second :: rest).length % 2 = rest.length % 2 := by
    rw [List.length_cons, List.length_cons]
    omega
  rw [repeatLast, repeatLast, parity]
  split
  · rename_i odd
    cases rest with
    | nil => cases odd
    | cons third rest => rfl
  · rfl

section Levels

variable (sha256Double : Sha256Double)

theorem hashPair_hexlify (left right : List UInt8) :
    hashPair sha256Double (hexlify left) (hexlify right) =
      hexlify (merkleNode sha256Double left right) := by
  have even : (hexlify left).length % 2 = 0 := by
    rw [length_hexlify]
    omega
  rw [hashPair, binlify_append _ _ even, binlify_hexlify, binlify_hexlify]
  rfl

/-- The pairs of a padded level are the level above. -/
theorem hashPairs_repeatLast (nodes : List (List UInt8)) :
    hashPairs sha256Double (repeatLast (nodes.map hexlify)) =
      (MerkleTree.paddedParents (merkleNode sha256Double) nodes).map
        hexlify := by
  induction nodes using MerkleTree.paddedParents.induct with
  | case1 => rfl
  | case2 last =>
      have twice : repeatLast [hexlify last] = [hexlify last, hexlify last] :=
        rfl
      rw [List.map_singleton, twice, hashPairs, hashPairs, hashPair_hexlify,
        MerkleTree.paddedParents, List.map_singleton]
  | case3 left right rest ih =>
      rw [List.map_cons, List.map_cons, repeatLast_cons_cons, hashPairs, ih,
        hashPair_hexlify, MerkleTree.paddedParents, List.map_cons]

/-- The steps are the branch of the leaf that is left out. -/
theorem merkleSteps_eq (nodes : List (List UInt8)) :
    merkleSteps sha256Double ([] :: nodes.map hexlify) =
      (MerkleTree.firstBranch (merkleNode sha256Double) nodes).map
        hexlify := by
  induction nodes using
      MerkleTree.firstBranch.induct (merkleNode sha256Double) with
  | case1 =>
      rw [List.map_nil, merkleSteps_empty, MerkleTree.firstBranch]
      rfl
  | case2 second rest ih =>
      have several :
          1 < ([] :: (second :: rest).map hexlify).length := by
        rw [List.length_cons, List.map_cons, List.length_cons]
        omega
      rw [merkleSteps, if_pos several, List.map_cons, repeatLast_cons_cons,
        List.drop_succ_cons, List.drop_succ_cons, List.drop_zero,
        hashPairs_repeatLast, ih, MerkleTree.firstBranch, List.map_cons]
      rfl

theorem merkleWithFirst_hexlify
    (steps : List (List UInt8)) (first : List UInt8) :
    merkleWithFirst sha256Double (steps.map hexlify) (hexlify first) =
      hexlify (steps.foldl (merkleNode sha256Double) first) := by
  induction steps generalizing first with
  | nil => rfl
  | cons step steps ih =>
      rw [List.map_cons, merkleWithFirst, List.foldl_cons, hashPair_hexlify,
        List.foldl_cons]
      exact ih _

end Levels

/-! ## The root -/

/--
For any number of hashes the steps end, and with a first hash they give the
root of the tree over all hashes.
-/
theorem merkleWithFirst_merkleSteps (sha256Double : Sha256Double)
    (first : LowerDigits 64) (hashes : List (LowerDigits 64)) :
    some
        (merkleWithFirst sha256Double
          (merkleSteps sha256Double ([] :: hashes.map LowerDigits.text))
          first.text) =
      (merkleRoot sha256Double
        (first.bytes :: hashes.map LowerDigits.bytes)).map hexlify := by
  have texts :
      hashes.map LowerDigits.text =
        (hashes.map LowerDigits.bytes).map hexlify := by
    rw [List.map_map]
    refine List.map_congr_left fun digits _ => ?_
    exact (@LowerDigits.hexlify_bytes 64 digits rfl).symm
  rw [texts, merkleSteps_eq,
    ← @LowerDigits.hexlify_bytes 64 first rfl,
    merkleWithFirst_hexlify, merkleRoot, MerkleTree.paddedRoot_cons,
    Option.map_some]

end YiimpStratum.Template
