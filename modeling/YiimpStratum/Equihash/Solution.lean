import YiimpStratum.Equihash.Verify

/-!
# Valid solutions and the verifier

A solution of the generalised birthday problem is a sequence of `2 ^ k`
indices arranged as the leaves of a binary tree.  The definition is stated for
arbitrary parameters over an index function and a string function.

`verifyEH` tests one consequence of validity, that the strings of all leaves
cancel.  The module shows which inputs separate the two: those whose strings
cancel at the root although an index is repeated, a pair of halves is out of
order, or some inner group does not collide.
-/

namespace YiimpStratum.Equihash

open YiimpStratum

/-! ## The generalised birthday problem -/

section Birthday

variable (indexOf stringOf : Nat → Nat)

/--
Exclusive or of the strings of the aligned group number `group` of `2 ^ level`
positions.
-/
def groupXor (level group : Nat) : Nat :=
  BigEndian.xorAll
    ((List.range (2 ^ level)).map fun offset =>
      stringOf (group * 2 ^ level + offset))

/--
The conditions on the groups of `2 ^ level` positions, for the levels up to
`top`: the first index of the left half is smaller than that of the right
half, and the strings of the group agree to zero on the leading
`level * (bits / (depth + 1))` of their `bits` bits.
-/
structure GroupsUpTo (bits depth top : Nat) : Prop where
  ordered :
    ∀ level, 1 ≤ level → level ≤ depth → ∀ group < 2 ^ (depth - level),
      indexOf (group * 2 ^ level) <
        indexOf (group * 2 ^ level + 2 ^ (level - 1))
  collides :
    ∀ level, 1 ≤ level → level ≤ top → ∀ group < 2 ^ (depth - level),
      groupXor stringOf level group <
        2 ^ (bits - level * (bits / (depth + 1)))

/-- A solution with `2 ^ depth` leaves over strings of `bits` bits. -/
structure IsBirthdaySolution (bits depth : Nat) : Prop where
  distinct :
    ∀ left < 2 ^ depth, ∀ right < 2 ^ depth,
      indexOf left = indexOf right → left = right
  groups : GroupsUpTo indexOf stringOf bits depth depth
  cancels : groupXor stringOf depth 0 = 0

/--
What validity asks beyond the cancellation at the root: distinct leaves and
the group conditions strictly below the root.
-/
structure IsCollisionTree (bits depth : Nat) : Prop where
  distinct :
    ∀ left < 2 ^ depth, ∀ right < 2 ^ depth,
      indexOf left = indexOf right → left = right
  groups : GroupsUpTo indexOf stringOf bits depth (depth - 1)

variable {indexOf stringOf}

/-- A cancelling collision tree is a solution: the root level is implied. -/
theorem isBirthdaySolution_iff
    {bits depth : Nat} :
    IsBirthdaySolution indexOf stringOf bits depth ↔
      groupXor stringOf depth 0 = 0 ∧
        IsCollisionTree indexOf stringOf bits depth := by
  constructor
  · intro solution
    refine ⟨solution.cancels, solution.distinct, solution.groups.ordered, ?_⟩
    intro level positive below
    exact solution.groups.collides level positive (by omega)
  · rintro ⟨cancels, tree⟩
    refine ⟨tree.distinct, ⟨tree.groups.ordered, ?_⟩, cancels⟩
    intro level positive below group inside
    by_cases root : level = depth
    · subst level
      have only : group = 0 := by
        simpa using inside
      rw [only, cancels]
      exact Nat.two_pow_pos _
    · exact
        tree.groups.collides level positive (by omega) group inside

end Birthday

/-! ## Equihash 200,9 -/

section Equihash

variable (blake2b : Blake2b) (hdr : HeaderBytes) (soln : SolutionBytes)

/-- The string at a position of the solution. -/
def stringAt (position : Nat) : Nat :=
  hashString blake2b hdr (solutionIndex soln position)

/-- A valid Equihash solution for a header. -/
def IsSolution : Prop :=
  IsBirthdaySolution (solutionIndex soln) (stringAt blake2b hdr soln) 200 9

/-- The tree conditions that the verifier does not test. -/
def HasCollisionTree : Prop :=
  IsCollisionTree (solutionIndex soln) (stringAt blake2b hdr soln) 200 9

theorem groupXor_root :
    groupXor (stringAt blake2b hdr soln) 9 0 =
      BigEndian.xorAll (solutionStrings blake2b hdr soln) := by
  have positions :
      ((List.range (2 ^ 9)).map fun offset =>
          stringAt blake2b hdr soln (0 * 2 ^ 9 + offset)) =
        solutionStrings blake2b hdr soln := by
    simp only [Nat.zero_mul, Nat.zero_add]
    rfl
  rw [groupXor, positions]

theorem isSolution_iff :
    IsSolution blake2b hdr soln ↔
      BigEndian.xorAll (solutionStrings blake2b hdr soln) = 0 ∧
        HasCollisionTree blake2b hdr soln := by
  rw [IsSolution, isBirthdaySolution_iff, groupXor_root]
  rfl

/--
The verifier is sound at an input exactly when the strings of the solution do
not cancel or its indices form a collision tree.
-/
theorem verifyEH_sound_iff :
    (verifyEH blake2b hdr soln = true → IsSolution blake2b hdr soln) ↔
      (BigEndian.xorAll (solutionStrings blake2b hdr soln) ≠ 0 ∨
        HasCollisionTree blake2b hdr soln) := by
  rw [verifyEH_eq_true_iff, isSolution_iff]
  constructor
  · intro sound
    by_cases cancels :
        BigEndian.xorAll (solutionStrings blake2b hdr soln) = 0
    · exact Or.inr (sound cancels).2
    · exact Or.inl cancels
  · rintro (rejected | tree) cancels
    · exact (rejected cancels).elim
    · exact ⟨cancels, tree⟩

/--
The verifier accepts exactly the inputs whose 512 strings cancel, so it
accepts every solution.
-/
theorem verifyEH_exact :
    (verifyEH blake2b hdr soln = true ↔
        BigEndian.xorAll (solutionStrings blake2b hdr soln) = 0) ∧
      (IsSolution blake2b hdr soln → verifyEH blake2b hdr soln = true) := by
  have exact := verifyEH_eq_true_iff blake2b hdr soln
  refine ⟨exact, fun solution => ?_⟩
  have cancels := ((isSolution_iff blake2b hdr soln).mp solution).1
  exact exact.mpr cancels

end Equihash

/-! ## A repeated index -/

/-- The all-zero header. -/
def zeroHeader : HeaderBytes :=
  Vector.replicate 140 0

/-- The all-zero solution: every index is zero. -/
def zeroSolution : SolutionBytes :=
  Vector.replicate equihashSolutionSize 0

@[simp]
theorem solutionIndex_zeroSolution (position : Nat) :
    solutionIndex zeroSolution position = 0 := by
  have zeros :
      BigEndian.value zeroSolution.toList = 0 := by
    rw [zeroSolution, Vector.toList_replicate]
    exact BigEndian.value_replicate_zero _
  rw [solutionIndex, zeros, BigEndian.field]
  simp

theorem verifyEH_zeroSolution (blake2b : Blake2b) (hdr : HeaderBytes) :
    verifyEH blake2b hdr zeroSolution = true := by
  rw [verifyEH_eq_true_iff]
  have strings :
      solutionStrings blake2b hdr zeroSolution =
        List.replicate (2 * 256) (hashString blake2b hdr 0) := by
    simp only [solutionStrings, solutionIndex_zeroSolution]
    rw [List.map_const', List.length_range]
  rw [strings]
  exact BigEndian.xorAll_replicate_even _ _

/--
The verifier accepts 512 copies of one index, whatever the hash function is.
-/
theorem verifyEH_unsound_at_zeroSolution :
    ¬ ∃ blake2b : Blake2b,
      verifyEH blake2b zeroHeader zeroSolution = true →
        IsSolution blake2b zeroHeader zeroSolution := by
  rintro ⟨blake2b, sound⟩
  have solution := sound (verifyEH_zeroSolution blake2b zeroHeader)
  have repeated :=
    solution.distinct 0 (by omega) 1 (by omega) (by simp)
  omega

end YiimpStratum.Equihash
