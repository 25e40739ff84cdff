import YiimpStratum.Merged.Proofs

/-!
# Branches from any table of slots

`coind_aux_merkle_branch` and `coinbase_aux` with every access to a vector
checked.  The two loops shrink their lists in the same way, so a branch leads
from the leaf of its slot to the root in the coinbase.
-/

namespace YiimpStratum.Merged

open YiimpStratum
open YiimpStratum.Util
open YiimpStratum.Template

/-! ## Checked accesses -/

section Checked

variable (sha256Double : Sha256Double)

/-- The loop over the pairs of `hashlist`. -/
def pairHashes (hashlist : List CString) : Option (List CString) :=
  (List.range (hashlist.length / 2)).mapM fun i => do
    let left ← hashlist[i * 2]?
    let right ← hashlist[i * 2 + 1]?
    return hashPair sha256Double left right

/-- No pair is outside of the vector. -/
theorem pairHashes_eq (hashlist : List CString) :
    pairHashes sha256Double hashlist =
      some (hashPairs sha256Double hashlist) := by
  induction hashlist using hashPairs.induct with
  | case1 => rfl
  | case2 last =>
      have pairless : [last].length / 2 = 0 := by
        rw [List.length_singleton]
      rw [pairHashes, pairless, List.range_zero, List.mapM_nil, hashPairs]
      rfl
  | case3 left right rest ih =>
      have count : (left :: right :: rest).length / 2 =
          rest.length / 2 + 1 := by
        rw [List.length_cons, List.length_cons]
        omega
      rw [pairHashes] at ih
      rw [pairHashes, count, List.range_succ_eq_map, List.mapM_cons,
        List.mapM_map, hashPairs]
      have shift (i : Nat) : (i + 1) * 2 = i * 2 + 2 := by omega
      simp only [Nat.zero_mul, Nat.zero_add, Nat.succ_eq_add_one, shift,
        List.getElem?_cons_zero, List.getElem?_cons_succ, Function.comp_def]
      rw [ih]
      rfl

/-- `coind_aux_merkle_branch`: `none` after an access outside of a vector. -/
def checkedBranch (hashlist : List CString) (index : Nat) :
    Option (List CString) :=
  if 1 < hashlist.length then
    match
      if index % 2 = 1 then hashlist[index - 1]? else hashlist[index + 1]?
    with
    | none => none
    | some side =>
        match paired : pairHashes sha256Double hashlist with
        | none => none
        | some l => (checkedBranch l (index / 2)).map (side :: ·)
  else
    some []
termination_by hashlist.length
decreasing_by
  rw [pairHashes_eq, Option.some.injEq] at paired
  rw [← paired, length_hashPairs]
  omega

/-- The loop of `coinbase_aux`. -/
def checkedTop (hashlist : List CString) : Option (List CString) :=
  if 1 < hashlist.length then
    match _ : pairHashes sha256Double hashlist with
    | none => none
    | some l => checkedTop l
  else
    some hashlist
termination_by hashlist.length
decreasing_by
  rename_i paired
  rw [pairHashes_eq, Option.some.injEq] at paired
  rw [← paired, length_hashPairs]
  omega

/-- `merkle_hash` of `coinbase_aux` -/
def checkedRoot (hashlist : List CString) : Option CString := do
  let top ← checkedTop sha256Double hashlist
  let root ← top[0]?
  return stringBe root

end Checked

/-! ## Tables of slots -/

/-- A table with `2 ^ depth` slots for coins that are loaded. -/
structure SlotTable (depth : Nat) where
  records : List CoindAux
  auxs : List (Option Nat)
  size : auxs.length = 2 ^ depth
  loaded : ∀ coind, some coind ∈ auxs → coind < records.length

namespace SlotTable

variable {depth : Nat} (table : SlotTable depth)

/-- The leaves of the tree. -/
def hashlist : List CString :=
  coindAuxHashlist table.records table.auxs

theorem length_hashlist : table.hashlist.length = 2 ^ depth := by
  rw [hashlist, coindAuxHashlist, List.length_map, table.size]

/-- The leaf of a slot: the hash of its coin, or zeros. -/
def leaf (index : Fin (2 ^ depth)) : CString :=
  table.hashlist.get (index.cast table.length_hashlist.symm)

theorem getElem?_hashlist (index : Fin (2 ^ depth)) :
    table.hashlist[index.val]? = some (table.leaf index) := by
  rw [leaf, List.get_eq_getElem]
  exact List.getElem?_eq_getElem _

end SlotTable

/-! ## The loops stay inside their vectors -/

section Loops

variable (sha256Double : Sha256Double)

theorem checkedTop_eq (hashlist : List CString) :
    checkedTop sha256Double hashlist =
      some (merkleTop sha256Double hashlist) := by
  induction hashlist using merkleTop.induct sha256Double with
  | case1 hashlist more ih =>
      rw [checkedTop, if_pos more, merkleTop, if_pos more]
      split
      · rename_i outside
        rw [pairHashes_eq] at outside
        cases outside
      · rename_i l paired
        rw [pairHashes_eq, Option.some.injEq] at paired
        rw [← paired, ih]
  | case2 hashlist single =>
      rw [checkedTop, if_neg single, merkleTop, if_neg single]

/-- The sibling on each level is an entry of the list. -/
theorem checkedBranch_eq
    {depth : Nat} {hashlist : List CString} {index : Nat}
    (length : hashlist.length = 2 ^ depth) (inside : index < 2 ^ depth) :
    checkedBranch sha256Double hashlist index =
      some (merkleBranch sha256Double hashlist index) := by
  induction depth generalizing hashlist index with
  | zero =>
      rw [checkedBranch, if_neg (by omega), merkleBranch, if_neg (by omega)]
  | succ depth ih =>
      rw [pow_succ] at length inside
      have more : 1 < hashlist.length := by
        have positive := Nat.two_pow_pos depth
        omega
      have half : (hashPairs sha256Double hashlist).length = 2 ^ depth := by
        rw [length_hashPairs]
        omega
      have above := ih half (by omega : index / 2 < 2 ^ depth)
      have side :
          (if index % 2 = 1 then hashlist[index - 1]?
            else hashlist[index + 1]?) =
            some (if index % 2 = 1 then hashlist.getD (index - 1) []
              else hashlist.getD (index + 1) []) := by
        split
        · rw [List.getD_eq_getElem?_getD,
            List.getElem?_eq_getElem (by omega), Option.getD_some]
        · rw [List.getD_eq_getElem?_getD,
            List.getElem?_eq_getElem (by omega), Option.getD_some]
      rw [checkedBranch, if_pos more, side, merkleBranch, if_pos more]
      dsimp only
      split
      · rename_i outside
        rw [pairHashes_eq] at outside
        cases outside
      · rename_i l paired
        rw [pairHashes_eq, Option.some.injEq] at paired
        rw [← paired, above, Option.map_some]

end Loops

/-! ## Branches and roots -/

/-- What is computed for a table and an index, with no access outside. -/
structure BranchVerifies (sha256Double : Sha256Double) {depth : Nat}
    (table : SlotTable depth) (index : Fin (2 ^ depth))
    (branch : List CString) : Prop where
  computed :
    checkedBranch sha256Double table.hashlist index = some branch
  root :
    checkedRoot sha256Double table.hashlist =
      some
        (stringBe
          (MerkleTree.foldBranch (hashPair sha256Double) branch index
            (table.leaf index)))

/--
In a table with any power of two of slots the branch of every slot leads from
its leaf to the root.
-/
theorem exists_branchVerifies (sha256Double : Sha256Double) {depth : Nat}
    (table : SlotTable depth) (index : Fin (2 ^ depth)) :
    ∃ branch, BranchVerifies sha256Double table index branch := by
  have length := table.length_hashlist
  refine ⟨_, checkedBranch_eq sha256Double length index.isLt, ?_⟩
  rw [checkedRoot, checkedTop_eq, merkleTop_eq sha256Double length,
    MerkleTree.iterate_parents_eq_foldBranch [] length
      (table.getElem?_hashlist index),
    merkleBranch_eq sha256Double length]
  rfl

theorem lt_of_some_mem_fourSlots {coind : Nat}
    (listed : some coind ∈ [none, some 0, none, some 1]) : coind < 2 := by
  have either : coind = 0 ∨ coind = 1 := by
    simpa using listed
  omega

theorem length_sameDigits (digit : Char) :
    (List.replicate 64 digit).length = 64 :=
  List.length_replicate

/-- The hash whose digits are all the same. -/
def sameDigits (digit : Char) : AuxHash where
  digits := List.replicate 64 digit
  length := length_sameDigits digit

theorem length_fourSlots :
    ([none, some 0, none, some 1] : List (Option Nat)).length = 2 ^ 2 :=
  rfl

/-- Four slots, with coins in the second and the last of them. -/
def fourSlots : SlotTable 2 where
  records :=
    [{ index := 1, chainid := 1, hash := sameDigits '1' },
      { index := 3, chainid := 2, hash := sameDigits '2' }]
  auxs := [none, some 0, none, some 1]
  size := length_fourSlots
  loaded := fun _ => lt_of_some_mem_fourSlots

/-- The branch of the coin in the last slot. -/
theorem exists_branchVerifies_fourSlots :
    ∃ branch,
      BranchVerifies (fun bytes => Vector.ofFn fun i => bytes.getD i 0)
        fourSlots 3 branch :=
  exists_branchVerifies _ fourSlots 3

end YiimpStratum.Merged
