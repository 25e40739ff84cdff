import YiimpStratum.Library.MerkleTree
import YiimpStratum.Merged.Auxs

/-!
# Proofs for auxiliary blocks

A proof matches the committed root as long as the records that a template
points to keep their hashes and their slots.  A refresh changes a hash, and the
next template may give a coin another slot.
-/

namespace YiimpStratum.Merged

open YiimpStratum
open YiimpStratum.Util
open YiimpStratum.Template

/-! ## The property and its condition -/

/-- What the auxiliary chain computes from a proof. -/
def provenRoot (sha256Double : Sha256Double) (proof : AuxProof) : CString :=
  stringBe
    (MerkleTree.foldBranch (hashPair sha256Double) proof.branch proof.index
      (stringBe proof.hash.digits))

/--
The proofs sent for templates that are not deleted lead to the root in their
coinbase, and their slots are inside `auxs`.
-/
def ProofsMatch (sha256Double : Sha256Double) (server : Server) : Prop :=
  ∀ templ ∈ server.templates, templ.deleted = false →
    ∀ root, templ.root = some root → ∀ slot proof,
      clientDoSubmit sha256Double server.records templ slot = some proof →
        templ.auxs.length ≤ maxAuxs ∧ provenRoot sha256Double proof = root

/-- The slot that a coin gets among a number of slots. -/
def slotOf (records : List CoindAux) (size coind : Nat) : Option Nat :=
  records[coind]?.map fun aux => auxPosition aux.chainid size

/-- The coins get different slots. -/
def Separates (records : List CoindAux) (coinds : List Nat) (size : Nat) :
    Prop :=
  coinds.length ≤ size ∧ (coinds.map (slotOf records size)).Nodup

instance (records : List CoindAux) (coinds : List Nat) (size : Nat) :
    Decidable (Separates records coinds size) :=
  inferInstanceAs (Decidable (_ ∧ _))

/-- The exponent of the number of slots, when it is inside `auxs`. -/
def exponent (records : List CoindAux) (coinds : List Nat) : Option Nat :=
  (List.range 6).find? fun i => Separates records coinds (2 ^ i)

/--
A refresh keeps the hash of a coin that a committed root depends on, and a
build fits in `auxs` and keeps the slots that templates rely on.
-/
def Careful (server : Server) : Action → Prop
  | .coindGetauxblock coind _ hash =>
      ∀ templ ∈ server.templates, templ.deleted = false →
        templ.root.isSome = true → some coind ∈ templ.auxs →
          ∀ aux ∈ server.records[coind]?, hash = aux.hash
  | .coindAuxBuildAuxs coinds =>
      (exponent server.records (server.loaded coinds)).isSome = true ∧
        ∀ i ∈ exponent server.records (server.loaded coinds),
          ∀ templ ∈ server.templates, templ.deleted = false →
            ∀ slot < templ.auxs.length, ∀ coind ∈ server.loaded coinds,
              templ.auxs[slot]? = some (some coind) →
                slotOf server.records (2 ^ i) coind = some slot
  | _ => True

instance (server : Server) (action : Action) :
    Decidable (Careful server action) :=
  match action with
  | .coindGetauxblock .. =>
      inferInstanceAs (Decidable (∀ templ ∈ server.templates, _))
  | .coindAuxBuildAuxs _ => inferInstanceAs (Decidable (_ ∧ _))
  | .loadCoind .. | .coinbaseAux _ | .deleteJob _ => isTrue trivial

/-! ## Building the slots -/

theorem auxPosition_lt (chainid : Int) {size : Nat} (positive : 0 < size) :
    auxPosition chainid size < size := by
  have bound :=
    Int.emod_lt_of_pos
      (Int.bmod (1103515245 * chainid) (2 ^ 32) + 1103515245 * 12345 + 12345)
      (Int.natCast_pos.mpr positive)
  rw [auxPosition]
  omega

/-- Only the slots of some coins are new. -/
structure Reindexed (coinds : List Nat) (records new : List CoindAux) :
    Prop where
  length : new.length = records.length
  kept :
    ∀ coind aux, new[coind]? = some aux →
      ∃ old, records[coind]? = some old ∧ aux.hash = old.hash ∧
        aux.chainid = old.chainid ∧ (coind ∉ coinds → aux = old)

theorem Reindexed.refl (coinds : List Nat) (records : List CoindAux) :
    Reindexed coinds records records where
  length := rfl
  kept := fun _ aux found => ⟨aux, found, rfl, rfl, fun _ => rfl⟩

theorem Reindexed.trans
    {coinds : List Nat} {first second third : List CoindAux}
    (before : Reindexed coinds first second)
    (after : Reindexed coinds second third) :
    Reindexed coinds first third where
  length := after.length.trans before.length
  kept := by
    intro coind aux found
    obtain ⟨middle, was, hash, chainid, same⟩ := after.kept coind aux found
    obtain ⟨old, wasOld, oldHash, oldChainid, oldSame⟩ :=
      before.kept coind middle was
    exact ⟨old, wasOld, hash.trans oldHash, chainid.trans oldChainid,
      fun other => (same other).trans (oldSame other)⟩

theorem Reindexed.mono
    {coinds more : List Nat} {records new : List CoindAux}
    (reindexed : Reindexed coinds records new)
    (subset : ∀ coind ∈ coinds, coind ∈ more) :
    Reindexed more records new where
  length := reindexed.length
  kept := by
    intro coind aux found
    obtain ⟨old, was, hash, chainid, same⟩ := reindexed.kept coind aux found
    exact ⟨old, was, hash, chainid, fun other =>
      same fun member => other (subset coind member)⟩

/-- The slot of a coin depends on its chain id alone. -/
theorem Reindexed.slotOf_eq
    {coinds : List Nat} {records new : List CoindAux}
    (reindexed : Reindexed coinds records new) (size coind : Nat) :
    slotOf new size coind = slotOf records size coind := by
  rw [slotOf, slotOf]
  cases found : new[coind]? with
  | none =>
      rw [List.getElem?_eq_none_iff, reindexed.length] at found
      rw [List.getElem?_eq_none found]
  | some aux =>
      obtain ⟨old, was, -, chainid, -⟩ := reindexed.kept coind aux found
      rw [was, Option.map_some, Option.map_some, chainid]

/-- A record gets a slot. -/
theorem reindexed_set
    {records : List CoindAux} {coind : Nat} {aux : CoindAux}
    (found : records[coind]? = some aux) (pos : Nat) :
    Reindexed [coind] records
      (records.set coind { aux with index := pos }) where
  length := List.length_set
  kept := by
    intro other new isNew
    rcases eq_or_ne other coind with rfl | different
    · rw [List.getElem?_set_self (List.getElem?_eq_some_iff.mp found).1,
        Option.some.injEq] at isNew
      subst isNew
      exact ⟨aux, found, rfl, rfl, fun absent => absurd (by simp) absent⟩
    · rw [List.getElem?_set_ne different.symm] at isNew
      exact ⟨new, isNew, rfl, rfl, fun _ => rfl⟩

theorem reindexed_placeAuxs
    (size : Nat) (coinds : List Nat) (auxs : List (Option Nat))
    (records : List CoindAux) :
    Reindexed coinds records (placeAuxs size coinds auxs records).2.2 := by
  induction coinds generalizing auxs records with
  | nil => exact Reindexed.refl _ _
  | cons coind coinds ih =>
      have rest (coind' : Nat) (member : coind' ∈ coinds) :
          coind' ∈ coind :: coinds :=
        List.mem_cons_of_mem coind member
      rw [placeAuxs]
      split
      · exact (ih auxs records).mono rest
      · rename_i aux found
        simp only
        split
        · exact Reindexed.refl _ _
        · apply
            ((reindexed_set found _).mono _).trans ((ih _ _).mono rest)
          intro other member
          rw [List.mem_singleton.mp member]
          exact List.mem_cons_self

/-- The coins that were placed, and the slots that they got. -/
structure PlacedAt (size : Nat) (coinds : List Nat)
    (auxs filled : List (Option Nat)) (records new : List CoindAux) :
    Prop where
  length : filled.length = auxs.length
  index :
    ∀ coind ∈ coinds, ∃ aux, new[coind]? = some aux ∧
      slotOf records size coind = some aux.index
  slots :
    ∀ slot coind, filled[slot]? = some (some coind) →
      auxs[slot]? = some (some coind) ∨
        coind ∈ coinds ∧ slotOf records size coind = some slot

/-- The coins can be placed in free slots. -/
def Placeable (size : Nat) (coinds : List Nat) (auxs : List (Option Nat))
    (records : List CoindAux) : Prop :=
  (coinds.map (slotOf records size)).Nodup ∧
    ∀ coind ∈ coinds, ∀ slot, slotOf records size coind = some slot →
      auxs.getD slot none = none

/-- A free slot is taken, which none of the other coins may have. -/
theorem placeable_cons_iff
    {size coind : Nat} {coinds : List Nat} {auxs : List (Option Nat)}
    {records : List CoindAux} {aux : CoindAux} (positive : 0 < size)
    (length : auxs.length = size) (found : records[coind]? = some aux)
    (free : auxs.getD (auxPosition aux.chainid size) none = none) :
    Placeable size (coind :: coinds) auxs records ↔
      Placeable size coinds
        (auxs.set (auxPosition aux.chainid size) (some coind))
        (records.set coind
          { aux with index := auxPosition aux.chainid size }) := by
  have same :
      slotOf
          (records.set coind
            { aux with index := auxPosition aux.chainid size }) size =
        slotOf records size :=
    funext ((reindexed_set found _).slotOf_eq size)
  have own :
      slotOf records size coind = some (auxPosition aux.chainid size) := by
    rw [slotOf, found, Option.map_some]
  have bound : auxPosition aux.chainid size < auxs.length :=
    (auxPosition_lt aux.chainid positive).trans_eq length.symm
  rw [Placeable, Placeable, List.map_cons, List.nodup_cons, own, same]
  constructor
  · rintro ⟨⟨unshared, nodup⟩, allFree⟩
    refine ⟨nodup, fun other member slot isSlot => ?_⟩
    have different : auxPosition aux.chainid size ≠ slot := by
      rintro rfl
      exact unshared (List.mem_map.mpr ⟨other, member, isSlot⟩)
    rw [List.getD_eq_getElem?_getD, List.getElem?_set_ne different,
      ← List.getD_eq_getElem?_getD]
    exact allFree other (List.mem_cons_of_mem coind member) slot isSlot
  · rintro ⟨nodup, othersFree⟩
    have different (other : Nat) (member : other ∈ coinds) (slot : Nat)
        (isSlot : slotOf records size other = some slot) :
        auxPosition aux.chainid size ≠ slot := by
      rintro rfl
      have taken := othersFree other member _ isSlot
      rw [List.getD_eq_getElem?_getD, List.getElem?_set_self bound,
        Option.getD_some] at taken
      exact absurd taken (by simp)
    refine ⟨⟨?_, nodup⟩, ?_⟩
    · intro shared
      obtain ⟨other, member, isSlot⟩ := List.mem_map.mp shared
      exact different other member _ isSlot rfl
    · intro other member slot isSlot
      rcases List.mem_cons.mp member with rfl | member
      · rw [own, Option.some.injEq] at isSlot
        rw [← isSlot]
        exact free
      · have isFree := othersFree other member slot isSlot
        rwa [List.getD_eq_getElem?_getD,
          List.getElem?_set_ne (different other member slot isSlot),
          ← List.getD_eq_getElem?_getD] at isFree

/-- The loop is done exactly when every coin finds its slot free. -/
theorem placeAuxs_done_iff
    {size : Nat} (positive : 0 < size) {coinds : List Nat}
    {auxs : List (Option Nat)} {records : List CoindAux}
    (length : auxs.length = size)
    (loaded : ∀ coind ∈ coinds, coind < records.length) :
    (placeAuxs size coinds auxs records).1 = true ↔
      Placeable size coinds auxs records := by
  induction coinds generalizing auxs records with
  | nil =>
      exact iff_of_true rfl ⟨List.nodup_nil, by simp⟩
  | cons coind coinds ih =>
      obtain ⟨aux, found⟩ : ∃ aux, records[coind]? = some aux :=
        ⟨_, List.getElem?_eq_getElem (loaded coind List.mem_cons_self)⟩
      rw [placeAuxs, found]
      simp only
      split
      · rename_i taken
        refine iff_of_false (by simp) fun placeable => ?_
        have free :=
          placeable.2 coind List.mem_cons_self _
            (by rw [slotOf, found, Option.map_some])
        rw [free] at taken
        exact absurd taken (by simp)
      · rename_i free
        rw [placeable_cons_iff positive length found (by simpa using free)]
        apply ih
        · rw [List.length_set, length]
        · intro other member
          rw [List.length_set]
          exact loaded other (List.mem_cons_of_mem coind member)

theorem placedAt_placeAuxs
    {size : Nat} (positive : 0 < size) {coinds : List Nat}
    {auxs : List (Option Nat)} {records : List CoindAux}
    (length : auxs.length = size)
    (loaded : ∀ coind ∈ coinds, coind < records.length)
    (done : (placeAuxs size coinds auxs records).1 = true) :
    PlacedAt size coinds auxs (placeAuxs size coinds auxs records).2.1
      records (placeAuxs size coinds auxs records).2.2 := by
  induction coinds generalizing auxs records with
  | nil =>
      exact ⟨rfl, by simp, fun _ _ => Or.inl⟩
  | cons coind coinds ih =>
      obtain ⟨aux, found⟩ : ∃ aux, records[coind]? = some aux :=
        ⟨_, List.getElem?_eq_getElem (loaded coind List.mem_cons_self)⟩
      have placeable :=
        (placeAuxs_done_iff positive length loaded).mp done
      rw [placeAuxs, found] at done ⊢
      simp only at done ⊢
      split at done
      · exact absurd done (by simp)
      · rename_i free
        rw [if_neg free]
        have rest :=
          ih (by rw [List.length_set, length])
            (fun other member => by
              rw [List.length_set]
              exact loaded other (List.mem_cons_of_mem coind member))
            done
        have same :
            slotOf
                (records.set coind
                  { aux with
                    index := auxPosition aux.chainid size })
                size =
              slotOf records size :=
          funext ((reindexed_set found _).slotOf_eq size)
        have own :
            slotOf records size coind =
              some (auxPosition aux.chainid size) := by
          rw [slotOf, found, Option.map_some]
        -- The coin is not among the others, which have other slots.
        have once : coind ∉ coinds := by
          intro member
          have nodup := placeable.1
          rw [List.map_cons, List.nodup_cons] at nodup
          exact nodup.1 (List.mem_map.mpr ⟨coind, member, rfl⟩)
        have reindexed :=
          reindexed_placeAuxs size coinds
            (auxs.set (auxPosition aux.chainid size) (some coind))
            (records.set coind
              { aux with
                index := auxPosition aux.chainid size })
        exact
          { length := by rw [rest.length, List.length_set]
            index := by
              intro other member
              rcases List.mem_cons.mp member with rfl | member
              · have bound := loaded other List.mem_cons_self
                rw [← List.length_set, ← reindexed.length] at bound
                have isNew := List.getElem?_eq_getElem bound
                refine ⟨_, isNew, ?_⟩
                obtain ⟨old, was, -, -, kept⟩ := reindexed.kept _ _ isNew
                rw [List.getElem?_set_self
                  (List.getElem?_eq_some_iff.mp found).1,
                  Option.some.injEq] at was
                rw [own, kept once, ← was]
              · obtain ⟨placed, isNew, isSlot⟩ := rest.index other member
                rw [same] at isSlot
                exact ⟨placed, isNew, isSlot⟩
            slots := by
              intro slot other filled
              rcases rest.slots slot other filled with
                before | ⟨member, isSlot⟩
              · rcases eq_or_ne
                  (auxPosition aux.chainid size) slot with
                  rfl | different
                · rw [List.getElem?_set_self
                    (by
                      rw [length]
                      exact auxPosition_lt _ positive),
                    Option.some.injEq, Option.some.injEq] at before
                  subst before
                  exact Or.inr ⟨List.mem_cons_self, own⟩
                · rw [List.getElem?_set_ne different] at before
                  exact Or.inl before
              · rw [same] at isSlot
                exact Or.inr ⟨List.mem_cons_of_mem coind member, isSlot⟩ }

theorem separates_iff_placeable
    {records : List CoindAux} {coinds : List Nat} {size : Nat} :
    Separates records coinds size ↔
      coinds.length ≤ size ∧
        Placeable size coinds (List.replicate size none) records := by
  rw [Separates, Placeable]
  have free (slot : Nat) :
      (List.replicate size (none : Option Nat)).getD slot none = none := by
    rw [List.getD_eq_getElem?_getD, List.getElem?_replicate]
    split <;> rfl
  exact and_congr_right fun _ =>
    (and_iff_left fun _ _ slot _ => free slot).symm

/-- The search over the sizes stops at the first that separates the coins. -/
theorem tryAuxs_eq
    {coinds exponents : List Nat} {records : List CoindAux} {i : Nat}
    (loaded : ∀ coind ∈ coinds, coind < records.length)
    (first :
      exponents.find? (fun i => Separates records coinds (2 ^ i)) = some i) :
    PlacedAt (2 ^ i) coinds (List.replicate (2 ^ i) none)
        (tryAuxs coinds exponents records).1 records
        (tryAuxs coinds exponents records).2 ∧
      Reindexed coinds records (tryAuxs coinds exponents records).2 := by
  induction exponents generalizing records with
  | nil => exact absurd first (by simp)
  | cons candidate rest ih =>
      have positive : 0 < 2 ^ candidate := Nat.two_pow_pos candidate
      have done :=
        placeAuxs_done_iff positive
          (List.length_replicate (n := 2 ^ candidate) (a := none)) loaded
      have reindexed :=
        reindexed_placeAuxs (2 ^ candidate) coinds
          (List.replicate (2 ^ candidate) none) records
      rw [tryAuxs]
      rw [List.find?_cons] at first
      split
      · rename_i tooFew
        have fails : ¬ Separates records coinds (2 ^ candidate) :=
          fun separates => absurd separates.1 (by omega)
        rw [decide_eq_false fails] at first
        exact ih loaded first
      · rename_i enough
        split
        · rename_i auxs placed isPlaced
          rw [isPlaced] at done reindexed
          have separates : Separates records coinds (2 ^ candidate) :=
            separates_iff_placeable.mpr ⟨by omega, done.mp rfl⟩
          rw [decide_eq_true separates] at first
          cases Option.some.inj first
          have spec :=
            placedAt_placeAuxs positive List.length_replicate loaded
              (by rw [isPlaced])
          rw [isPlaced] at spec
          exact ⟨spec, reindexed⟩
        · rename_i auxs placed isPlaced
          rw [isPlaced] at done reindexed
          have fails : ¬ Separates records coinds (2 ^ candidate) :=
            fun separates =>
              absurd (done.mpr (separates_iff_placeable.mp separates).2)
                (by simp)
          rw [decide_eq_false fails] at first
          have sameSlots (size : Nat) :
              slotOf placed size = slotOf records size :=
            funext (reindexed.slotOf_eq size)
          have stillLoaded : ∀ coind ∈ coinds, coind < placed.length := by
            rw [reindexed.length]
            exact loaded
          have sameTest :
              (fun i => decide (Separates placed coinds (2 ^ i))) =
                fun i => decide (Separates records coinds (2 ^ i)) := by
            funext i
            rw [decide_eq_decide, Separates, Separates, sameSlots]
          rw [← sameTest] at first
          obtain ⟨spec, after⟩ := ih stillLoaded first
          refine ⟨⟨spec.length, ?_, ?_⟩, reindexed.trans after⟩
          · rw [← sameSlots]
            exact spec.index
          · rw [← sameSlots]
            exact spec.slots

/-- What a build that fits in `auxs` does. -/
theorem coindAuxBuildAuxs_eq
    {coinds : List Nat} {records : List CoindAux} {i : Nat}
    (loaded : ∀ coind ∈ coinds, coind < records.length)
    (fits : exponent records coinds = some i) :
    i < 6 ∧ Reindexed coinds records (coindAuxBuildAuxs coinds records).2 ∧
      (coinds = [] ∧ (coindAuxBuildAuxs coinds records).1 = [] ∨
        PlacedAt (2 ^ i) coinds (List.replicate (2 ^ i) none)
          (coindAuxBuildAuxs coinds records).1 records
          (coindAuxBuildAuxs coinds records).2) := by
  have small : i < 6 :=
    List.mem_range.mp (List.mem_of_find?_eq_some fits)
  refine ⟨small, ?_⟩
  rw [coindAuxBuildAuxs]
  split
  · rename_i empty
    exact ⟨Reindexed.refl _ _, Or.inl ⟨empty, rfl⟩⟩
  · have first :
        (List.range maxAuxs).find?
            (fun i => Separates records coinds (2 ^ i)) = some i := by
      have split :
          List.range maxAuxs = List.range 6 ++ (List.range 26).map (6 + ·) :=
        @List.range_add 6 26
      rw [exponent] at fits
      rw [split, List.find?_append, fits]
      rfl
    obtain ⟨placed, reindexed⟩ := tryAuxs_eq loaded first
    exact ⟨reindexed, Or.inr placed⟩

/-! ## Roots -/

section Roots

variable (sha256Double : Sha256Double)

theorem hashPairs_eq_parents (hashlist : List CString) :
    hashPairs sha256Double hashlist =
      MerkleTree.parents (hashPair sha256Double) hashlist := by
  induction hashlist using hashPairs.induct with
  | case1 => simp [hashPairs, MerkleTree.parents]
  | case2 => simp [hashPairs, MerkleTree.parents]
  | case3 left right rest ih =>
      rw [hashPairs, MerkleTree.parents, ih]

theorem merkleTop_eq
    {depth : Nat} {hashlist : List CString}
    (length : hashlist.length = 2 ^ depth) :
    merkleTop sha256Double hashlist =
      (MerkleTree.parents (hashPair sha256Double))^[depth] hashlist := by
  induction depth generalizing hashlist with
  | zero =>
      rw [merkleTop, if_neg (by omega), Function.iterate_zero, id_eq]
  | succ depth ih =>
      have more : 1 < hashlist.length := by
        have positive := Nat.two_pow_pos depth
        rw [length, pow_succ]
        omega
      rw [merkleTop, if_pos more, hashPairs_eq_parents,
        Function.iterate_succ_apply]
      apply ih
      rw [MerkleTree.length_parents, length, pow_succ]
      omega

theorem merkleBranch_eq
    {depth : Nat} {hashlist : List CString}
    (length : hashlist.length = 2 ^ depth) (index : Nat) :
    merkleBranch sha256Double hashlist index =
      MerkleTree.branch (hashPair sha256Double) [] depth hashlist index := by
  induction depth generalizing hashlist index with
  | zero =>
      rw [merkleBranch, if_neg (by omega), MerkleTree.branch]
  | succ depth ih =>
      have more : 1 < hashlist.length := by
        have positive := Nat.two_pow_pos depth
        rw [length, pow_succ]
        omega
      rw [merkleBranch, if_pos more, hashPairs_eq_parents,
        MerkleTree.branch, MerkleTree.sibling]
      congr 1
      apply ih
      rw [MerkleTree.length_parents, length, pow_succ]
      omega

end Roots

/-! ## The invariant -/

/-- The records that a template points to are as it expects them. -/
structure Consistent (sha256Double : Sha256Double)
    (records : List CoindAux) (templ : JobTemplate) : Prop where
  size : templ.auxs = [] ∨ ∃ depth < 6, templ.auxs.length = 2 ^ depth
  slots :
    ∀ slot coind, templ.auxs[slot]? = some (some coind) →
      ∃ aux : CoindAux, records[coind]? = some aux ∧ aux.index = slot
  root :
    ∀ root, templ.root = some root →
      root = coinbaseAuxRoot sha256Double records templ.auxs

def AllConsistent (sha256Double : Sha256Double) (server : Server) : Prop :=
  ∀ templ ∈ server.templates, templ.deleted = false →
    Consistent sha256Double server.records templ

section Invariant

variable {sha256Double : Sha256Double}

theorem coindAuxHashlist_congr
    {records new : List CoindAux} {auxs : List (Option Nat)}
    (same :
      ∀ coind, some coind ∈ auxs →
        new[coind]?.map CoindAux.hash = records[coind]?.map CoindAux.hash) :
    coindAuxHashlist new auxs = coindAuxHashlist records auxs := by
  rw [coindAuxHashlist, coindAuxHashlist]
  apply List.map_congr_left
  intro slot member
  cases slot with
  | none => rfl
  | some coind =>
      have hashes := congrArg (Option.map fun hash : AuxHash =>
        stringBe hash.digits) (same coind member)
      rw [Option.map_map, Option.map_map] at hashes
      exact congrArg (fun digits => digits.getD []) hashes

theorem Consistent.proofMatches
    {records : List CoindAux} {templ : JobTemplate}
    (consistent : Consistent sha256Double records templ) {root : CString}
    (committed : templ.root = some root) {slot : Nat} {proof : AuxProof}
    (submits : clientDoSubmit sha256Double records templ slot = some proof) :
    templ.auxs.length ≤ maxAuxs ∧
      provenRoot sha256Double proof = root := by
  rw [clientDoSubmit] at submits
  split at submits
  · exact absurd submits (by simp)
  · rename_i coind pointed
    obtain ⟨aux, found, rfl⟩ := Option.map_eq_some_iff.mp submits
    have at_slot : templ.auxs[slot]? = some (some coind) := by
      rwa [Option.join_eq_some_iff] at pointed
    obtain ⟨own, isFound, index⟩ := consistent.slots slot coind at_slot
    rw [found, Option.some.injEq] at isFound
    subst isFound
    rcases consistent.size with empty | ⟨depth, small, length⟩
    · rw [empty] at at_slot
      exact absurd at_slot (by simp)
    · constructor
      · rw [length]
        exact (Nat.pow_le_pow_right (by decide) (Nat.le_of_lt_succ small))
      · have hashlistLength :
            (coindAuxHashlist records templ.auxs).length = 2 ^ depth := by
          rw [coindAuxHashlist, List.length_map, length]
        have leaf :
            (coindAuxHashlist records templ.auxs)[aux.index]? =
              some (stringBe aux.hash.digits) := by
          rw [coindAuxHashlist, List.getElem?_map, index, at_slot]
          simp only [Option.map_some, found, Option.getD_some]
        rw [consistent.root root committed, coinbaseAuxRoot,
          merkleTop_eq sha256Double hashlistLength,
          MerkleTree.iterate_parents_eq_foldBranch [] hashlistLength leaf,
          List.headD_cons, provenRoot, coindAuxMerkleBranch,
          merkleBranch_eq sha256Double hashlistLength]

theorem AllConsistent.proofsMatch
    {server : Server} (consistent : AllConsistent sha256Double server) :
    ProofsMatch sha256Double server :=
  fun templ member alive _ committed _ _ submits =>
    (consistent templ member alive).proofMatches committed submits

/-- The records of a template keep their hashes and slots. -/
theorem Consistent.congr
    {records new : List CoindAux} {templ : JobTemplate}
    (consistent : Consistent sha256Double records templ)
    (slots :
      ∀ (slot coind : Nat), templ.auxs[slot]? = some (some coind) →
        ∀ old : CoindAux, records[coind]? = some old →
          ∃ aux : CoindAux, new[coind]? = some aux ∧ aux.index = old.index ∧
            (templ.root.isSome = true → aux.hash = old.hash)) :
    Consistent sha256Double new templ where
  size := consistent.size
  slots := by
    intro slot coind at_slot
    obtain ⟨old, was, index⟩ := consistent.slots slot coind at_slot
    obtain ⟨aux, found, same, -⟩ := slots slot coind at_slot old was
    exact ⟨aux, found, same.trans index⟩
  root := by
    intro root committed
    rw [consistent.root root committed, coinbaseAuxRoot, coinbaseAuxRoot,
      coindAuxHashlist_congr]
    intro coind member
    obtain ⟨slot, at_slot⟩ := List.mem_iff_getElem?.mp member
    obtain ⟨old, was, -⟩ := consistent.slots slot coind at_slot
    obtain ⟨aux, found, -, hash⟩ := slots slot coind at_slot old was
    rw [was, found, Option.map_some, Option.map_some,
      hash (by rw [committed]; rfl)]

/-- A template with its slots newly filled. -/
theorem consistent_built
    {coinds : List Nat} {records : List CoindAux} {i : Nat}
    (loaded : ∀ coind ∈ coinds, coind < records.length)
    (fits : exponent records coinds = some i) :
    Consistent sha256Double (coindAuxBuildAuxs coinds records).2
      { auxs := (coindAuxBuildAuxs coinds records).1
        root := none
        deleted := false } := by
  obtain ⟨small, -, ⟨-, empty⟩ | placed⟩ := coindAuxBuildAuxs_eq loaded fits
  · exact
      { size := Or.inl empty
        slots := by simp [empty]
        root := by simp }
  · refine ⟨Or.inr ⟨i, small, ?_⟩, ?_, by simp⟩
    · exact placed.length.trans List.length_replicate
    · intro slot coind at_slot
      rcases placed.slots slot coind at_slot with free | ⟨member, isSlot⟩
      · rw [List.getElem?_replicate] at free
        split at free
        · exact absurd (Option.some.inj free) (by simp)
        · exact absurd free (by simp)
      · obtain ⟨aux, found, index⟩ := placed.index coind member
        rw [isSlot, Option.some.injEq] at index
        exact ⟨aux, found, index.symm⟩

theorem mem_modify
    {templates : List JobTemplate} {i : Nat}
    {change : JobTemplate → JobTemplate} {templ : JobTemplate}
    (member : templ ∈ templates.modify i change) :
    ∃ old ∈ templates, templ = old ∨ templ = change old := by
  obtain ⟨k, at_k⟩ := List.mem_iff_getElem?.mp member
  rw [List.getElem?_modify] at at_k
  obtain ⟨old, was, rfl⟩ := Option.map_eq_some_iff.mp at_k
  refine ⟨old, List.mem_of_getElem? was, ?_⟩
  split
  · exact Or.inr rfl
  · exact Or.inl rfl

theorem AllConsistent.step
    {server : Server} (consistent : AllConsistent sha256Double server)
    {action : Action} (careful : Careful server action) :
    AllConsistent sha256Double (Merged.step sha256Double server action) := by
  cases action with
  | loadCoind chainid hash =>
      intro templ member alive
      apply (consistent templ member alive).congr
      intro slot coind at_slot old was
      refine ⟨old, ?_, rfl, fun _ => rfl⟩
      exact List.getElem?_append_left
        (List.getElem?_eq_some_iff.mp was).1 |>.trans was
  | coindGetauxblock refreshed chainid hash =>
      intro templ member alive
      apply (consistent templ member alive).congr
      intro slot coind at_slot old was
      rcases eq_or_ne refreshed coind with rfl | different
      · refine ⟨{ old with chainid := chainid, hash := hash }, ?_, rfl, ?_⟩
        · exact (List.getElem?_modify_eq _ _ _).trans (by rw [was]; rfl)
        · intro committed
          exact careful templ member alive committed
            (List.mem_of_getElem? at_slot) old was
      · refine ⟨old, ?_, rfl, fun _ => rfl⟩
        exact (List.getElem?_modify_ne _ _ different).trans was
  | coindAuxBuildAuxs coinds =>
      obtain ⟨fits, keeps⟩ := careful
      obtain ⟨i, fits⟩ := Option.isSome_iff_exists.mp fits
      have loaded :
          ∀ coind ∈ server.loaded coinds, coind < server.records.length :=
        fun coind member => by
          simpa using (List.mem_filter.mp member).2
      obtain ⟨-, reindexed, built⟩ := coindAuxBuildAuxs_eq loaded fits
      intro templ member alive
      rcases List.mem_append.mp member with old | new
      · apply (consistent templ old alive).congr
        intro slot coind at_slot aux was
        have bound := (List.getElem?_eq_some_iff.mp was).1
        rw [← reindexed.length] at bound
        have found := List.getElem?_eq_getElem bound
        obtain ⟨same, wasSame, hash, -, kept⟩ := reindexed.kept coind _ found
        rw [was, Option.some.injEq] at wasSame
        subst wasSame
        refine ⟨_, found, ?_, fun _ => hash⟩
        by_cases placed : coind ∈ server.loaded coinds
        · obtain ⟨own, isOwn, index⟩ :=
            (consistent templ old alive).slots slot coind at_slot
          rw [was, Option.some.injEq] at isOwn
          subst isOwn
          rcases built with ⟨empty, -⟩ | built
          · rw [empty] at placed
            exact absurd placed (by simp)
          · obtain ⟨fresh, isFresh, isSlot⟩ := built.index coind placed
            rw [found, Option.some.injEq] at isFresh
            rw [keeps i fits templ old alive slot
              (List.getElem?_eq_some_iff.mp at_slot).1 coind placed at_slot,
              Option.some.injEq] at isSlot
            rw [isFresh, ← isSlot, index]
        · rw [kept placed]
      · rw [List.mem_singleton.mp new]
        exact consistent_built loaded fits
  | coinbaseAux i =>
      intro templ member alive
      obtain ⟨old, listed, rfl | rfl⟩ := mem_modify member
      · exact consistent templ listed alive
      · split at alive
        · rename_i done
          rw [if_pos done]
          exact consistent old listed alive
        · rename_i pending
          rw [if_neg pending]
          have before := consistent old listed alive
          exact
            { size := before.size
              slots := before.slots
              root := fun root committed =>
                (Option.some.inj committed).symm }
  | deleteJob i =>
      intro templ member alive
      obtain ⟨old, listed, rfl | rfl⟩ := mem_modify member
      · exact consistent templ listed alive
      · exact absurd alive (by simp)

end Invariant

/-! ## Runs -/

/-- In every run of careful steps the proofs match the committed roots. -/
theorem proofs_match_of_careful
    (sha256Double : Sha256Double) {actions : List Action}
    (careful :
      Run.EveryStep (step sha256Double) Careful Server.initial actions) :
    ProofsMatch sha256Double
      (Run.after (step sha256Double) Server.initial actions) := by
  have initial : AllConsistent sha256Double Server.initial := by
    intro templ member
    exact absurd member (by simp [Server.initial])
  have preserved (server : Server) (action : Action)
      (consistent : AllConsistent sha256Double server)
      (careful : Careful server action) :
      AllConsistent sha256Double (step sha256Double server action) :=
    consistent.step careful
  exact
    (Run.invariant_after_of_everyStep preserved initial careful).proofsMatch

def zeroHash : AuxHash where
  digits := List.replicate 64 '0'
  length := List.length_replicate

def otherHash : AuxHash where
  digits := List.replicate 64 '1'
  length := List.length_replicate

/-- A digest for the runs below, where one slot needs none. -/
def zeroDigest : Sha256Double :=
  fun _ => Vector.replicate 32 0

/-- A job is replaced after the block of its coin was refreshed. -/
def refreshedAfterReplacement : List Action :=
  [.loadCoind 1 zeroHash, .coindAuxBuildAuxs [0], .coinbaseAux 0,
    .deleteJob 0, .coindGetauxblock 0 1 otherHash, .coindAuxBuildAuxs [0],
    .coinbaseAux 1]

theorem proofs_match_of_careful_refreshedAfterReplacement :
    ProofsMatch zeroDigest
      (Run.after (step zeroDigest) Server.initial
        refreshedAfterReplacement) :=
  proofs_match_of_careful zeroDigest (by decide)

/-- The block of a coin is refreshed while a job commits to the old one. -/
def refreshedWhileMined : List Action :=
  [.loadCoind 1 zeroHash, .coindAuxBuildAuxs [0], .coinbaseAux 0,
    .coindGetauxblock 0 1 otherHash]

theorem proofs_stale_refreshedWhileMined :
    ¬ ProofsMatch zeroDigest
      (Run.after (step zeroDigest) Server.initial refreshedWhileMined) := by
  intro allMatch
  have state :
      Run.after (step zeroDigest) Server.initial refreshedWhileMined =
        { records := [{ index := 0, chainid := 1, hash := otherHash }]
          templates :=
            [{ auxs := [some 0]
               root :=
                 some
                   (coinbaseAuxRoot zeroDigest
                     [{ index := 0, chainid := 1, hash := zeroHash }]
                     [some 0])
               deleted := false }] } :=
    rfl
  rw [state] at allMatch
  obtain ⟨-, same⟩ :=
    allMatch _ (List.mem_singleton_self _) rfl _ rfl 0
      { hash := otherHash
        branch :=
          coindAuxMerkleBranch zeroDigest
            [{ index := 0, chainid := 1, hash := otherHash }] [some 0] 0
        index := 0 }
      rfl
  -- A tree of one leaf has an empty branch, and the leaf is its root.
  rw [provenRoot, coindAuxMerkleBranch, merkleBranch, if_neg (by decide),
    coinbaseAuxRoot, merkleTop, if_neg (by decide)] at same
  exact absurd same (by decide)

end YiimpStratum.Merged
