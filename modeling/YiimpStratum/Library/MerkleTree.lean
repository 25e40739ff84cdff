import Mathlib.Algebra.Ring.Nat
import Mathlib.Logic.Function.Iterate

/-!
# Merkle trees over a list of leaves

A tree over a power of two of leaves, for any way to combine two nodes.  The
branch of a leaf lists the sibling on each level from the leaves upwards.
Folding the leaf with its branch gives the root.

A tree over any number of leaves takes the last node of an odd level twice.
The branch of its first leaf does not depend on that leaf, so it can be made
from the other leaves.
-/

namespace YiimpStratum.MerkleTree

universe nodeLevel

variable {Node : Type nodeLevel} (combine : Node → Node → Node)

/-- The level above a list of nodes. -/
def parents : List Node → List Node
  | [] => []
  | [_] => []
  | left :: right :: rest => combine left right :: parents rest

/-- The sibling of a node, or `missing` when there is none. -/
def sibling (missing : Node) (nodes : List Node) (index : Nat) : Node :=
  if index % 2 = 1 then nodes.getD (index - 1) missing
  else nodes.getD (index + 1) missing

/-- The siblings on the way from a leaf to the root. -/
def branch (missing : Node) : Nat → List Node → Nat → List Node
  | 0, _, _ => []
  | depth + 1, nodes, index =>
      sibling missing nodes index ::
        branch missing depth (parents combine nodes) (index / 2)

/-- What a verifier computes from a leaf, its branch and its index. -/
def foldBranch : List Node → Nat → Node → Node
  | [], _, leaf => leaf
  | side :: rest, index, leaf =>
      foldBranch rest (index / 2)
        (if index % 2 = 1 then combine side leaf else combine leaf side)

variable {combine}

theorem length_parents (nodes : List Node) :
    (parents combine nodes).length = nodes.length / 2 := by
  induction nodes using parents.induct with
  | case1 => simp [parents]
  | case2 => simp [parents]
  | case3 left right rest ih =>
      rw [parents, List.length_cons, ih, List.length_cons, List.length_cons]
      omega

theorem getElem?_parents
    {nodes : List Node} {index : Nat} {left right : Node}
    (first : nodes[2 * index]? = some left)
    (second : nodes[2 * index + 1]? = some right) :
    (parents combine nodes)[index]? = some (combine left right) := by
  induction nodes using parents.induct generalizing index with
  | case1 => exact absurd first (by simp)
  | case2 =>
      rw [List.getElem?_singleton, if_neg (by omega)] at second
      exact absurd second (by simp)
  | case3 head next rest ih =>
      rw [parents]
      cases index with
      | zero =>
          cases Option.some.inj first
          cases Option.some.inj second
          rfl
      | succ index =>
          have shift : 2 * (index + 1) = 2 * index + 2 := by omega
          rw [shift] at first second
          exact ih first second

/-- The parent of a node is the node combined with its sibling. -/
theorem getElem?_parents_half
    (missing : Node) {nodes : List Node} {index : Nat} {leaf : Node}
    (even : nodes.length % 2 = 0) (at_index : nodes[index]? = some leaf) :
    (parents combine nodes)[index / 2]? =
      some
        (if index % 2 = 1 then
          combine (sibling missing nodes index) leaf
        else combine leaf (sibling missing nodes index)) := by
  have bound := (List.getElem?_eq_some_iff.mp at_index).1
  rw [sibling]
  split
  · rename_i odd
    apply getElem?_parents
    · have position : 2 * (index / 2) = index - 1 := by omega
      rw [position, List.getD_eq_getElem?_getD,
        List.getElem?_eq_getElem (by omega), Option.getD_some]
    · have position : 2 * (index / 2) + 1 = index := by omega
      rw [position, at_index]
  · rename_i notOdd
    apply getElem?_parents
    · have position : 2 * (index / 2) = index := by omega
      rw [position, at_index]
    · have position : 2 * (index / 2) + 1 = index + 1 := by omega
      rw [position, List.getD_eq_getElem?_getD,
        List.getElem?_eq_getElem (by omega), Option.getD_some]

/-- Folding a leaf with its branch gives the root. -/
theorem iterate_parents_eq_foldBranch
    (missing : Node) {depth index : Nat} {nodes : List Node} {leaf : Node}
    (length : nodes.length = 2 ^ depth)
    (at_index : nodes[index]? = some leaf) :
    (parents combine)^[depth] nodes =
      [foldBranch combine (branch combine missing depth nodes index) index
        leaf] := by
  induction depth generalizing nodes index leaf with
  | zero =>
      obtain ⟨only, rfl⟩ := List.length_eq_one_iff.mp length
      rw [List.getElem?_singleton] at at_index
      split at at_index
      · cases Option.some.inj at_index
        rfl
      · exact absurd at_index (by simp)
  | succ depth ih =>
      have even : nodes.length % 2 = 0 := by
        rw [length, Nat.pow_succ]
        omega
      have half : (parents combine nodes).length = 2 ^ depth := by
        rw [length_parents, length, Nat.pow_succ]
        omega
      rw [Function.iterate_succ_apply, branch, foldBranch]
      exact ih half (getElem?_parents_half missing even at_index)

/-! ## Any number of leaves -/

section Padded

variable (combine)

/-- The level above, with the last node of an odd level taken twice. -/
def paddedParents : List Node → List Node
  | [] => []
  | [last] => [combine last last]
  | left :: right :: rest => combine left right :: paddedParents rest

theorem length_paddedParents (nodes : List Node) :
    (paddedParents combine nodes).length = (nodes.length + 1) / 2 := by
  induction nodes using paddedParents.induct with
  | case1 => simp [paddedParents]
  | case2 last => simp [paddedParents]
  | case3 left right rest ih =>
      rw [paddedParents, List.length_cons, ih, List.length_cons,
        List.length_cons]
      omega

/-- The node that is left after all levels, if there is any. -/
def paddedRoot (nodes : List Node) : Option Node :=
  if 1 < nodes.length then paddedRoot (paddedParents combine nodes)
  else nodes.head?
termination_by nodes.length
decreasing_by
  rw [length_paddedParents]
  omega

/-- The branch of a first leaf, from the leaves after it. -/
def firstBranch : List Node → List Node
  | [] => []
  | second :: rest => second :: firstBranch (paddedParents combine rest)
termination_by nodes => nodes.length
decreasing_by
  rw [length_paddedParents, List.length_cons]
  omega

/-- Folding the first leaf with its branch gives the root. -/
theorem paddedRoot_cons (first : Node) (rest : List Node) :
    paddedRoot combine (first :: rest) =
      some ((firstBranch combine rest).foldl combine first) := by
  induction rest using firstBranch.induct combine
      generalizing first with
  | case1 =>
      rw [paddedRoot, firstBranch]
      rfl
  | case2 second rest ih =>
      have several : 1 < (first :: second :: rest).length := by
        rw [List.length_cons, List.length_cons]
        omega
      rw [paddedRoot, if_pos several, paddedParents, ih, firstBranch,
        List.foldl_cons]

end Padded

/-! ## Nodes of one kind -/

section Agree

variable {combine other : Node → Node → Node} (Valid : Node → Prop)
variable (closed : ∀ left right, Valid left → Valid right →
  Valid (other left right))
variable (same : ∀ left right, Valid left → Valid right →
  combine left right = other left right)
include closed same

theorem paddedParents_congr {nodes : List Node}
    (valid : ∀ node ∈ nodes, Valid node) :
    paddedParents combine nodes = paddedParents other nodes ∧
      ∀ node ∈ paddedParents other nodes, Valid node := by
  induction nodes using paddedParents.induct with
  | case1 => exact ⟨rfl, fun _ member => absurd member List.not_mem_nil⟩
  | case2 last =>
      have one := valid last (List.mem_singleton_self last)
      refine ⟨by rw [paddedParents, paddedParents, same _ _ one one], ?_⟩
      intro node member
      rw [paddedParents, List.mem_singleton] at member
      rw [member]
      exact closed _ _ one one
  | case3 left right rest ih =>
      rw [List.forall_mem_cons, List.forall_mem_cons] at valid
      obtain ⟨first, second, others⟩ := valid
      obtain ⟨equal, above⟩ := ih others
      refine ⟨?_, ?_⟩
      · rw [paddedParents, paddedParents, same _ _ first second, equal]
      · rw [paddedParents, List.forall_mem_cons]
        exact ⟨closed _ _ first second, above⟩

/-- Only what the nodes above are computed from matters to the root. -/
theorem paddedRoot_congr {nodes : List Node}
    (valid : ∀ node ∈ nodes, Valid node) :
    paddedRoot combine nodes = paddedRoot other nodes := by
  induction nodes using paddedRoot.induct combine with
  | case1 nodes several ih =>
      obtain ⟨equal, above⟩ := paddedParents_congr Valid closed same valid
      rw [equal] at ih
      calc paddedRoot combine nodes
          = paddedRoot combine (paddedParents combine nodes) := by
            rw [paddedRoot, if_pos several]
        _ = paddedRoot other (paddedParents other nodes) := by
            rw [equal, ih above]
        _ = paddedRoot other nodes := by
            rw [paddedRoot.eq_1 other nodes, if_pos several]
  | case2 nodes single =>
      rw [paddedRoot.eq_1 combine, paddedRoot.eq_1 other, if_neg single,
        if_neg single]

end Agree

end YiimpStratum.MerkleTree
