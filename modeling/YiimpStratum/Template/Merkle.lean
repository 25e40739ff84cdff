import YiimpStratum.Util.Hex

/-!
# Merkle branches

`merkle_steps` and `merkle_with_first` of `merkle.cpp` over hexadecimal
strings.  Double SHA-256 is used only through its digests, so the model takes
it as a parameter.

Every root that the fold produces from at least one step is the hexadecimal
form of a digest, so it has 64 digits.
-/

namespace YiimpStratum.Template

open YiimpStratum.Util

/-- Double SHA-256: the bytes hashed to the digest. -/
abbrev Sha256Double := List UInt8 → Vector UInt8 32

section Definitions

variable (sha256Double : Sha256Double)

/-- `sha256_double_hash_hex` -/
def sha256DoubleHashHex (input : List UInt8) : CString :=
  hexlify (sha256Double input).toList

/-- The hash of two concatenated strings, decoded first. -/
def hashPair (left right : CString) : CString :=
  sha256DoubleHashHex sha256Double (binlify (left ++ right))

/-- The vector `Ld` of one round, from the entries 2, 3 and so on of `L`. -/
def hashPairs : List CString → List CString
  | [] => []
  | [_] => []
  | left :: right :: rest =>
      hashPair sha256Double left right :: hashPairs rest

/-- The vector `L` after its last entry was repeated on an odd size. -/
def repeatLast (L : List CString) : List CString :=
  if L.length % 2 = 1 then L ++ [L.getLastD []] else L

theorem length_hashPairs (L : List CString) :
    (hashPairs sha256Double L).length = L.length / 2 := by
  induction L using hashPairs.induct with
  | case1 =>
      rfl
  | case2 single =>
      simp [hashPairs]
  | case3 left right rest ih =>
      rw [hashPairs, List.length_cons, ih, List.length_cons,
        List.length_cons]
      omega

theorem length_repeatLast (L : List CString) :
    (repeatLast L).length = 2 * ((L.length + 1) / 2) := by
  rw [repeatLast]
  split
  · rw [List.length_append, List.length_singleton]
    omega
  · omega

/-- `merkle_steps`: the loop runs while `L` has more than one entry. -/
def merkleSteps (L : List CString) : List CString :=
  if 1 < L.length then
    L.getD 1 [] ::
      merkleSteps
        ([] :: hashPairs sha256Double ((repeatLast L).drop 2))
  else
    []
termination_by L.length
decreasing_by
  simp only [List.length_cons, length_hashPairs, List.length_drop,
    length_repeatLast]
  omega

/-- `merkle_with_first` -/
def merkleWithFirst (steps : List CString) (first : CString) : CString :=
  steps.foldl (hashPair sha256Double) first

/-! ## Lengths of roots -/

@[simp]
theorem length_sha256DoubleHashHex (input : List UInt8) :
    (sha256DoubleHashHex sha256Double input).length = 64 := by
  simp [sha256DoubleHashHex]

theorem length_merkleWithFirst
    (steps : List CString) (first : CString) (digits : first.length = 64) :
    (merkleWithFirst sha256Double steps first).length = 64 := by
  induction steps generalizing first with
  | nil =>
      exact digits
  | cons step steps ih =>
      exact ih (hashPair sha256Double first step) (by simp [hashPair])

end Definitions

/-! ## The first rounds -/

section Rounds

variable (sha256Double : Sha256Double)

theorem merkleSteps_empty :
    merkleSteps sha256Double [[]] = [] := by
  rw [merkleSteps, if_neg (by simp)]

/-- A single transaction contributes its own hash. -/
theorem merkleSteps_single (hash : CString) :
    merkleSteps sha256Double [[], hash] = [hash] := by
  rw [merkleSteps, if_pos (by simp), repeatLast, if_neg (by simp)]
  simp only [List.drop_succ_cons, List.drop_nil, hashPairs]
  rw [merkleSteps_empty]
  rfl

end Rounds

end YiimpStratum.Template
