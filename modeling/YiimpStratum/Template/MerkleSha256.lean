import YiimpStratum.Algos.Sha256Stream
import YiimpStratum.Template.MerkleRoot

/-!
# Merkle roots with the hash of the program

The root that `merkle_steps` and `merkle_with_first` give with
`sha256_double_hash_hex` is the root of the tree whose nodes are hashed twice
with the SHA-256 of the standard.
-/

namespace YiimpStratum.Template

open YiimpStratum
open YiimpStratum.Util
open YiimpStratum.Algos
open YiimpStratum.Sha256

theorem length_sha256DoubleHash (stack stack' memory : List UInt8)
    (len : Nat) : (sha256DoubleHash stack stack' memory len).length = 32 := by
  simp [sha256DoubleHash, sha256Hash, sha256Finish, putUint32]

/-- `sha256_double_hash` of all bytes of an input. -/
def sha256Double (stack stack' : List UInt8) : Sha256Double := fun input =>
  ⟨(sha256DoubleHash stack stack' input input.length).toArray,
    length_sha256DoubleHash stack stack' input input.length⟩

theorem hashed_length (input : List UInt8) :
    hashed input input.length = input := by
  rw [hashed]
  split
  · rename_i zero
    rw [List.length_eq_zero_iff.mp zero]
    rfl
  · exact List.take_length

/-- A node over the bytes of its children by the standard. -/
def sha256Node (left right : List UInt8) : List UInt8 :=
  sha256 (sha256 (left ++ right))

section Root

variable {stack stack' : List UInt8}
variable (size : stack.length = 64) (size' : stack'.length = 64)
include size size'

theorem merkleNode_sha256Double {left right : List UInt8}
    (leftSize : left.length = 32) (rightSize : right.length = 32) :
    merkleNode (sha256Double stack stack') left right =
      sha256Node left right := by
  have fits : (left ++ right).length < 2 ^ 32 := by
    rw [List.length_append, leftSize, rightSize]
    decide
  have twice :=
    sha256DoubleHash_eq size size' (left ++ right) (left ++ right).length
      (by rw [hashed_length]; exact fits)
  rw [hashed_length] at twice
  rw [merkleNode, sha256Double, sha256Node, ← twice]
  rfl

/-- The root over any number of transactions, with the hash itself. -/
theorem merkleWithFirst_sha256Double (first : LowerDigits 64)
    (hashes : List (LowerDigits 64)) :
    some
        (merkleWithFirst (sha256Double stack stack')
          (merkleSteps (sha256Double stack stack')
            ([] :: hashes.map LowerDigits.text)) first.text) =
      (MerkleTree.paddedRoot sha256Node
        (first.bytes :: hashes.map LowerDigits.bytes)).map hexlify := by
  have texts :
      hashes.map LowerDigits.text =
        (hashes.map LowerDigits.bytes).map hexlify := by
    rw [List.map_map]
    refine List.map_congr_left fun digits _ => ?_
    exact (@LowerDigits.hexlify_bytes 64 digits rfl).symm
  have width (digits : LowerDigits 64) : digits.bytes.length = 32 :=
    LowerDigits.length_bytes rfl
  have valid : ∀ node ∈ first.bytes :: hashes.map LowerDigits.bytes,
      node.length = 32 := by
    rw [List.forall_mem_cons, List.forall_mem_map]
    exact ⟨width first, fun digits _ => width digits⟩
  have root :
      MerkleTree.paddedRoot (merkleNode (sha256Double stack stack'))
          (first.bytes :: hashes.map LowerDigits.bytes) =
        MerkleTree.paddedRoot sha256Node
          (first.bytes :: hashes.map LowerDigits.bytes) :=
    MerkleTree.paddedRoot_congr (fun node : List UInt8 => node.length = 32)
      (fun left right _ _ => length_sha256 _)
      (fun left right => merkleNode_sha256Double size size') valid
  rw [texts, merkleSteps_eq, ← @LowerDigits.hexlify_bytes 64 first rfl,
    merkleWithFirst_hexlify, ← root, MerkleTree.paddedRoot_cons,
    Option.map_some]

end Root

theorem merkleWithFirst_sha256Double_zeros :
    let stack := List.replicate 64 0
    let zero : LowerDigits 64 := LowerDigits.ofBytes (List.replicate 32 0) rfl
    some
        (merkleWithFirst (sha256Double stack stack)
          (merkleSteps (sha256Double stack stack)
            ([] :: [zero].map LowerDigits.text)) zero.text) =
      (MerkleTree.paddedRoot sha256Node
        (zero.bytes :: [zero].map LowerDigits.bytes)).map hexlify :=
  merkleWithFirst_sha256Double rfl rfl _ _

end YiimpStratum.Template
