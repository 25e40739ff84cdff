import YiimpStratum.Equihash.ExpandArray

/-!
# The Equihash verifier

`verifyEH` of `algos/equi.c` for the parameters 200 and 9.  BLAKE2b is a
library function; after `digestInit` and the update with the header it is used
only through `generateHash`, so the model takes the map from a header and a
counter to the 50 digest bytes as a parameter.

The module ends with what the loops compute: the verifier accepts exactly when
the exclusive or of the 512 hash strings named by the solution is zero.
-/

namespace YiimpStratum.Equihash

open YiimpStratum

/-! ## Parameters -/

abbrev n : Nat := 200

abbrev k : Nat := 9

abbrev collisionBitLength : Nat := n / (k + 1)

abbrev collisionByteLength : Nat := (collisionBitLength + 7) / 8

abbrev hashLength : Nat := (k + 1) * collisionByteLength

abbrev indicesPerHashOutput : Nat := 512 / n

abbrev hashOutput : Nat := indicesPerHashOutput * n / 8

abbrev equihashSolutionSize : Nat := (1 <<< k) * (n / (k + 1) + 1) / 8

abbrev solnr : Nat := 1 <<< k

/-- The 140 header bytes, nonce included. -/
abbrev HeaderBytes := Vector UInt8 140

/-- The 1344 solution bytes, without the size prefix. -/
abbrev SolutionBytes := Vector UInt8 equihashSolutionSize

/-- BLAKE2b as the verifier uses it: header and counter to digest. -/
abbrev Blake2b := HeaderBytes → UInt32 → Vector UInt8 hashOutput

section Definitions

variable (blake2b : Blake2b)

/-! ## The code -/

def generateHash (hdr : HeaderBytes) (g : UInt32) :
    Vector UInt8 hashOutput :=
  blake2b hdr g

def isZero (hash : List UInt8) : Bool :=
  hash.all fun byte => byte == 0

/-- `be32toh` on the four bytes of one index. -/
def be32toh (bytes : List UInt8) : Nat :=
  BigEndian.value bytes

/-- The 2048 bytes of the array `indices`. -/
def indices (soln : SolutionBytes) : List UInt8 :=
  expandArray soln.toList (collisionBitLength + 1) 1

/-- The value of `be32toh(indices[j])`. -/
def indexAt (soln : SolutionBytes) (j : Nat) : Nat :=
  be32toh (((indices soln).drop (4 * j)).take 4)

/-- The array `hash` of one iteration, for the index `i`. -/
def expandedHash (hdr : HeaderBytes) (i : Nat) : List UInt8 :=
  let tmpHash :=
    generateHash blake2b hdr (UInt32.ofNat (i / indicesPerHashOutput))
  expandArray
    ((tmpHash.toList.drop (i % indicesPerHashOutput * n / 8)).take (n / 8))
    collisionBitLength 0

/-- One iteration of the loop over the solution indices. -/
def xorHash
    (hdr : HeaderBytes) (soln : SolutionBytes) (vHash : List UInt8)
    (j : Nat) : List UInt8 :=
  List.zipWith (fun left right => left ^^^ right) vHash
    (expandedHash blake2b hdr (indexAt soln j))

def verifyEH (hdr : HeaderBytes) (soln : SolutionBytes) : Bool :=
  isZero
    ((List.range solnr).foldl (xorHash blake2b hdr soln)
      (List.replicate hashLength 0))

/-! ## What the code reads -/

/--
The solution index at position `j`: the big-endian field of 21 bits at that
position.
-/
def solutionIndex (soln : SolutionBytes) (j : Nat) : Nat :=
  BigEndian.field (8 * equihashSolutionSize) 21
    (BigEndian.value soln.toList) j

/-- The 25 digest bytes that belong to an index. -/
def hashBytes (hdr : HeaderBytes) (i : Nat) : List UInt8 :=
  ((blake2b hdr (UInt32.ofNat (i / 2))).toList.drop (25 * (i % 2))).take 25

/-- The 200-bit string of an index, read as a number. -/
def hashString (hdr : HeaderBytes) (i : Nat) : Nat :=
  BigEndian.value (hashBytes blake2b hdr i)

/-- The 512 strings named by a solution. -/
def solutionStrings (hdr : HeaderBytes) (soln : SolutionBytes) : List Nat :=
  (List.range 512).map fun j => hashString blake2b hdr (solutionIndex soln j)

end Definitions

/-! ## Indices -/

theorem solutionIndex_lt (soln : SolutionBytes) (j : Nat) :
    solutionIndex soln j < 2 ^ 21 :=
  BigEndian.field_lt _ _ _ _

/-- The array `indices` holds the solution indices, big-endian. -/
theorem indexAt_eq
    (soln : SolutionBytes) {j : Nat} (below : j < 512) :
    indexAt soln j = solutionIndex soln j := by
  have widths (fieldValue : Nat) :
      (element (collisionBitLength + 1) 1 fieldValue).length = 4 :=
    length_element _ _ _
  have count :
      8 * soln.toList.length / (collisionBitLength + 1) = 512 := by
    rw [Vector.length_toList]
    rfl
  rw [indexAt, indices,
    expandArray_eq_elements 1 (by decide) (by decide), elements, count,
    BigEndian.take_drop_flatMap_range (fun index => widths _) below,
    be32toh, element, BigEndian.value_replicate_zero_append,
    BigEndian.value_encode]
  have fits := solutionIndex_lt soln j
  rw [solutionIndex] at fits ⊢
  simp only [Vector.length_toList]
  exact Nat.mod_eq_of_lt (fits.trans_le (by decide))

/-! ## Strings -/

section Strings

variable (blake2b : Blake2b)

theorem length_hashBytes (hdr : HeaderBytes) (i : Nat) :
    (hashBytes blake2b hdr i).length = 25 := by
  have size : hashOutput = 50 := rfl
  simp only [hashBytes, List.length_take, List.length_drop,
    Vector.length_toList, size]
  omega

theorem hashString_lt (hdr : HeaderBytes) (i : Nat) :
    hashString blake2b hdr i < 2 ^ 200 := by
  have bound := BigEndian.value_lt (hashBytes blake2b hdr i)
  rw [length_hashBytes] at bound
  exact bound

/-- The expansion of one string lists its ten 20-bit fields. -/
theorem expandedHash_eq (hdr : HeaderBytes) (i : Nat) :
    expandedHash blake2b hdr i =
      elements 20 0 200 (hashString blake2b hdr i) := by
  have offset : i % indicesPerHashOutput * n / 8 = 25 * (i % 2) := by
    change i % 2 * 200 / 8 = 25 * (i % 2)
    omega
  have bytes :
      expandedHash blake2b hdr i =
        expandArray (hashBytes blake2b hdr i) 20 0 := by
    rw [expandedHash, offset]
    rfl
  rw [bytes, expandArray_eq_elements 0 (by decide) (by decide),
    length_hashBytes]
  rfl

end Strings

/-! ## The fold of exclusive ors -/

theorem elements_eq_flatMap (number : Nat) :
    elements 20 0 200 number =
      (List.range 10).flatMap fun index =>
        BigEndian.encode 3 (BigEndian.field 200 20 number index) := by
  rfl

theorem elements_zero : elements 20 0 200 0 = List.replicate 30 0 := by
  decide

theorem zipWith_xor_elements (left right : Nat) :
    List.zipWith (fun a b => a ^^^ b) (elements 20 0 200 left)
        (elements 20 0 200 right) =
      elements 20 0 200 (left ^^^ right) := by
  rw [elements_eq_flatMap, elements_eq_flatMap, elements_eq_flatMap,
    BigEndian.zipWith_flatMap (fun index => by simp)]
  apply List.flatMap_congr
  intro index member
  rw [BigEndian.zipWith_xor_encode, BigEndian.field_xor]

/-- The expansion loses nothing: only the zero string expands to zero. -/
theorem isZero_elements_iff
    {number : Nat} (bound : number < 2 ^ 200) :
    isZero (elements 20 0 200 number) = true ↔ number = 0 := by
  constructor
  · intro zero
    have allZero :
        ∀ byte ∈ elements 20 0 200 number, byte = 0 := by
      simpa [isZero] using zero
    have fields : number < 2 ^ (10 * 20) := bound
    apply BigEndian.eq_zero_of_fields fields
    intro index below
    have fieldZero :
        BigEndian.value
            (BigEndian.encode 3 (BigEndian.field 200 20 number index)) =
          0 := by
      rw [BigEndian.value_eq_zero_iff]
      intro byte member
      apply allZero
      rw [elements_eq_flatMap, List.mem_flatMap]
      exact ⟨index, List.mem_range.mpr below, member⟩
    rw [BigEndian.value_encode] at fieldZero
    have fits := BigEndian.field_lt 200 20 number index
    rwa [Nat.mod_eq_of_lt (fits.trans_le (by decide))] at fieldZero
  · intro zero
    subst number
    rw [elements_zero]
    decide

section Fold

variable (blake2b : Blake2b)

/-- After any number of iterations `vHash` is the expanded exclusive or. -/
theorem foldl_xorHash
    (hdr : HeaderBytes) (soln : SolutionBytes)
    {count : Nat} (bound : count ≤ 512) :
    (List.range count).foldl (xorHash blake2b hdr soln)
        (List.replicate hashLength 0) =
      elements 20 0 200
        (BigEndian.xorAll
          ((List.range count).map fun j =>
            hashString blake2b hdr (solutionIndex soln j))) := by
  induction count with
  | zero =>
      exact elements_zero.symm
  | succ count ih =>
      rw [List.range_succ, List.foldl_append, ih (by omega),
        List.foldl_cons, List.foldl_nil, xorHash,
        indexAt_eq soln (by omega), expandedHash_eq,
        zipWith_xor_elements, List.map_append, BigEndian.xorAll_append]
      simp

theorem xorAll_solutionStrings_lt
    (hdr : HeaderBytes) (soln : SolutionBytes) :
    BigEndian.xorAll (solutionStrings blake2b hdr soln) < 2 ^ 200 := by
  apply BigEndian.xorAll_lt
  intro number member
  rcases List.mem_map.mp member with ⟨j, _, rfl⟩
  exact hashString_lt blake2b hdr _

/--
The verifier accepts exactly when the exclusive or of the 512 strings named by
the solution is zero.  It looks at nothing else.
-/
theorem verifyEH_eq_true_iff
    (hdr : HeaderBytes) (soln : SolutionBytes) :
    verifyEH blake2b hdr soln = true ↔
      BigEndian.xorAll (solutionStrings blake2b hdr soln) = 0 := by
  have folded := foldl_xorHash blake2b hdr soln (le_refl 512)
  rw [verifyEH]
  change isZero ((List.range 512).foldl _ _) = true ↔ _
  rw [folded]
  exact isZero_elements_iff (xorAll_solutionStrings_lt blake2b hdr soln)

end Fold

end YiimpStratum.Equihash
