import Mathlib.Algebra.Order.Ring.Int
import YiimpStratum.Merged.Proofs
import YiimpStratum.Template.Create

/-!
# The array of slots

`coind_aux_build_auxs` with the array `auxs` as it is declared, of `MAX_AUXS`
pointers.  The sizes that are tried are the powers of two with an exponent
below `MAX_AUXS`, so a slot may lie behind the end of the array.

The slots are built as they should be exactly when some size separates the
coins and no coin that is reached, at this size or before it, has a slot behind
the end.
-/

namespace YiimpStratum.Merged

open YiimpStratum.Template

/-! ## Building the array -/

/-- The array `auxs`: the numbers of records, or `none` for `NULL`. -/
abbrev AuxArray := Vector (Option Nat) maxAuxs

/-- The array after `memset`. -/
def noAuxs : AuxArray :=
  Vector.replicate maxAuxs none

/-- The fields `auxs` and `auxs_size` of a template. -/
structure AuxTable where
  auxs : AuxArray
  auxsSize : Int

/-- How the loop over the coins ends. -/
inductive Placement where
  /-- an access behind the end of the array -/
  | outside
  /-- a slot was taken, and the array is cleared -/
  | taken (records : List CoindAux)
  | placed (auxs : AuxArray) (records : List CoindAux)

/-- The loop over the coins for one size. -/
def placeCoinds (size : Nat) :
    List Nat → AuxArray → List CoindAux → Placement
  | [], auxs, records => .placed auxs records
  | coind :: coinds, auxs, records =>
      match records[coind]? with
      | none => placeCoinds size coinds auxs records
      | some aux =>
          let pos := auxPosition aux.chainid size
          if inside : pos < maxAuxs then
            if auxs[pos].isSome then .taken records
            else
              placeCoinds size coinds (auxs.set pos (some coind))
                (records.set coind { aux with index := pos })
          else .outside

/--
The loop over the sizes, from a list of exponents.  The conversion of `pow` to
`int` overflows at the last exponent.  The outcome is `none` after an access
outside of the array.
-/
def trySizes (coinds : List Nat) :
    List Nat → Int → List CoindAux → Option (AuxTable × List CoindAux)
  | [], auxsSize, records =>
      some ({ auxs := noAuxs, auxsSize := auxsSize }, records)
  | i :: rest, _, records =>
      let auxsSize := toInt32 (2 ^ i)
      if auxsSize < coinds.length then trySizes coinds rest auxsSize records
      else
        match placeCoinds auxsSize.toNat coinds noAuxs records with
        | .outside => none
        | .taken records => trySizes coinds rest 0 records
        | .placed auxs records =>
            some ({ auxs := auxs, auxsSize := auxsSize }, records)

/-- `coind_aux_build_auxs` on the array. -/
def buildAuxTable (coinds : List Nat) (records : List CoindAux) :
    Option (AuxTable × List CoindAux) :=
  if coinds = [] then some ({ auxs := noAuxs, auxsSize := 0 }, records)
  else trySizes coinds (List.range maxAuxs) 0 records

/-! ## The slots as they should be -/

/-- The slot of a chain id. -/
def chainSlot (chainid : Int) (size : Nat) : Nat :=
  ((1103515245 * (chainid + 12345) + 12345) % size).toNat

/-- The coins that can be mined, among the records. -/
structure MineableCoins where
  records : List CoindAux
  coinds : List Nat
  loaded : ∀ coind ∈ coinds, coind < records.length

/-- The coin sits in this slot of the array and knows it. -/
def SitsAt (auxs : AuxArray) (records : List CoindAux) (coind slot : Nat) :
    Prop :=
  auxs[slot]? = some (some coind) ∧
    records[coind]?.map CoindAux.index = some slot

/--
The coins sit in their slots, which are different, and the other entries are
`NULL`.
-/
structure SlotsFilled (slotOf : Nat → Option Nat) (coinds : List Nat)
    (auxs : AuxArray) (records : List CoindAux) : Prop where
  different : (coinds.map slotOf).Nodup
  sits : ∀ coind ∈ coinds, ∃ slot, slotOf coind = some slot ∧
    SitsAt auxs records coind slot
  others : ∀ slot < maxAuxs, some slot ∉ coinds.map slotOf →
    auxs[slot]? = some none

/-- No access was outside of the array, and there are slots or none at all. -/
def TableBuilt (coins : MineableCoins)
    (outcome : Option (AuxTable × List CoindAux)) : Prop :=
  ∃ table records, outcome = some (table, records) ∧
    (table.auxsSize = 0 ∨
      ∃ i, table.auxsSize = 2 ^ i ∧ coins.coinds.length ≤ 2 ^ i ∧
        SlotsFilled
          (fun coind => coins.records[coind]?.map fun aux =>
            chainSlot aux.chainid (2 ^ i))
          coins.coinds table.auxs records)

/-- The slots are built as they should be. -/
def SlotsBuilt (coins : MineableCoins) : Prop :=
  TableBuilt coins (buildAuxTable coins.coinds coins.records)

/-! ## When they are -/

/-- The coins reached at this size have slots inside the array. -/
def ReachedInside (records : List CoindAux) (coinds : List Nat)
    (size : Nat) : Prop :=
  ∀ first coind rest, coinds = first ++ coind :: rest →
    (first.map (slotOf records size)).Nodup →
      ∀ slot ∈ slotOf records size coind, slot < maxAuxs

/--
There are no coins, or some size separates them, and at the sizes up to the
first such the coins that are reached have slots inside the array.
-/
def SlotsFit (coins : MineableCoins) : Prop :=
  coins.coinds = [] ∨
    ∃ i < 31, Separates coins.records coins.coinds (2 ^ i) ∧
      (∀ j < i, ¬ Separates coins.records coins.coinds (2 ^ j)) ∧
        ∀ j ≤ i, coins.coinds.length ≤ 2 ^ j →
          ReachedInside coins.records coins.coinds (2 ^ j)

/-- Modulo a power of two the wrap of the product is not seen. -/
theorem auxPosition_two_pow (chainid : Int) {i : Nat} (bound : i ≤ 32) :
    auxPosition chainid (2 ^ i) = chainSlot chainid (2 ^ i) := by
  have divides : (((2 ^ i : Nat) : Int)) ∣ ((2 ^ 32 : Nat) : Int) :=
    Int.natCast_dvd_natCast.mpr (pow_dvd_pow 2 bound)
  have product :
      Int.bmod (1103515245 * chainid) (2 ^ 32) % ((2 ^ i : Nat) : Int) =
        1103515245 * chainid % ((2 ^ i : Nat) : Int) := by
    rw [← Int.emod_emod_of_dvd _ divides, Int.bmod_emod,
      Int.emod_emod_of_dvd _ divides]
  have sums :
      1103515245 * (chainid + 12345) + 12345 =
        1103515245 * chainid + (1103515245 * 12345 + 12345) := by
    ring
  rw [auxPosition, chainSlot, sums, Int.add_assoc, Int.add_emod, product,
    ← Int.add_emod]

/-! ## One size -/

/-- What the loop over some coins has done. -/
structure Filled (size : Nat) (coinds : List Nat) (auxs : AuxArray)
    (records new : List CoindAux) : Prop where
  slots : SlotsFilled (slotOf records size) coinds auxs new
  reindexed : Reindexed coinds records new

theorem filled_nil (size : Nat) (records : List CoindAux) :
    Filled size [] noAuxs records records where
  slots :=
    { different := List.nodup_nil
      sits := fun _ member => absurd member List.not_mem_nil
      others := fun slot inside _ => by
        rw [noAuxs, Vector.getElem?_replicate, if_pos inside] }
  reindexed := Reindexed.refl _ _

/-- One more coin gets its slot. -/
theorem Filled.append
    {size : Nat} {first : List Nat} {auxs : AuxArray}
    {records new : List CoindAux} {coind : Nat} {aux : CoindAux}
    (filled : Filled size first auxs records new)
    (found : new[coind]? = some aux)
    (inside : auxPosition aux.chainid size < maxAuxs)
    (free : auxs[auxPosition aux.chainid size]? = some none) :
    Filled size (first ++ [coind])
      (auxs.set (auxPosition aux.chainid size) (some coind) inside) records
      (new.set coind { aux with index := auxPosition aux.chainid size }) := by
  have own :
      slotOf records size coind = some (auxPosition aux.chainid size) := by
    rw [← filled.reindexed.slotOf_eq, slotOf, found, Option.map_some]
  have unshared :
      some (auxPosition aux.chainid size) ∉
        first.map (slotOf records size) := by
    intro shared
    obtain ⟨other, member, isSlot⟩ := List.mem_map.mp shared
    obtain ⟨slot, otherSlot, at_slot, -⟩ := filled.slots.sits other member
    rw [otherSlot, Option.some.injEq] at isSlot
    rw [isSlot, free] at at_slot
    cases at_slot
  have bound : coind < new.length := (List.getElem?_eq_some_iff.mp found).1
  have single : [coind].map (slotOf records size) =
      [some (auxPosition aux.chainid size)] := by
    rw [List.map_singleton, own]
  refine { slots := ⟨?_, ?_, ?_⟩, reindexed := ?_ }
  · rw [List.map_append, single]
    exact List.nodup_append.mpr
      ⟨filled.slots.different, List.pairwise_singleton _ _,
        fun _ member _ isLast => (List.mem_singleton.mp isLast) ▸
          fun same => unshared (same ▸ member)⟩
  · intro other member
    rcases List.mem_append.mp member with old | last
    · obtain ⟨slot, otherSlot, at_slot, knows⟩ :=
        filled.slots.sits other old
      have different : auxPosition aux.chainid size ≠ slot := by
        rintro rfl
        exact unshared (List.mem_map.mpr ⟨other, old, otherSlot⟩)
      have another : coind ≠ other := by
        rintro rfl
        rw [own, Option.some.injEq] at otherSlot
        exact different otherSlot
      refine ⟨slot, otherSlot, ?_, ?_⟩
      · rw [Vector.getElem?_set_ne inside different]
        exact at_slot
      · rw [List.getElem?_set_ne another]
        exact knows
    · rw [List.mem_singleton.mp last]
      refine ⟨_, own, ?_, ?_⟩
      · rw [Vector.getElem?_set_self inside]
      · rw [List.getElem?_set_self bound, Option.map_some]
  · intro slot below unused
    rw [List.map_append, single, List.mem_append, List.mem_singleton,
      Option.some.injEq, not_or] at unused
    rw [Vector.getElem?_set_ne inside (Ne.symm unused.2)]
    exact filled.slots.others slot below unused.1
  · refine Reindexed.trans (filled.reindexed.mono ?_)
      ((reindexed_set found _).mono ?_)
    · exact fun other member => List.mem_append_left _ member
    · exact fun other member => List.mem_append_right _ member

/-- What is known of each way in which the loop ends. -/
inductive Placed (size : Nat) (coinds : List Nat) (records : List CoindAux) :
    Placement → Prop where
  | outside (reached : ¬ ReachedInside records coinds size) :
      Placed size coinds records .outside
  | taken {new : List CoindAux}
      (inside : ReachedInside records coinds size)
      (shared : ¬ (coinds.map (slotOf records size)).Nodup)
      (reindexed : Reindexed coinds records new) :
      Placed size coinds records (.taken new)
  | placed {auxs : AuxArray} {new : List CoindAux}
      (inside : ReachedInside records coinds size)
      (filled : Filled size coinds auxs records new) :
      Placed size coinds records (.placed auxs new)

/-- The coins that were placed have slots inside the array. -/
theorem Filled.inside
    {size : Nat} {first : List Nat} {auxs : AuxArray}
    {records new : List CoindAux}
    (filled : Filled size first auxs records new) {coind slot : Nat}
    (member : coind ∈ first) (isSlot : slotOf records size coind = some slot) :
    slot < maxAuxs := by
  obtain ⟨own, ownSlot, at_own, -⟩ := filled.slots.sits coind member
  rw [isSlot, Option.some.injEq] at ownSlot
  rw [ownSlot]
  exact (Vector.getElem?_eq_some_iff.mp at_own).1

/-- With a slot that is taken no coin behind it is reached. -/
theorem Filled.taken
    {size : Nat} {first coinds : List Nat} {auxs : AuxArray}
    {records new : List CoindAux} {coind pos : Nat}
    (filled : Filled size first auxs records new)
    (own : slotOf records size coind = some pos) (inside : pos < maxAuxs)
    (shared : some pos ∈ first.map (slotOf records size)) :
    ReachedInside records (first ++ coind :: coinds) size ∧
      ¬ ((first ++ coind :: coinds).map (slotOf records size)).Nodup := by
  have twice (between : List Nat) :
      ¬ ((first ++ coind :: between).map (slotOf records size)).Nodup := by
    rw [List.map_append, List.map_cons, own]
    exact fun nodup => (List.nodup_append.mp nodup).2.2 _ shared _
      List.mem_cons_self rfl
  refine ⟨?_, twice coinds⟩
  intro before other rest split nodup slot isSlot
  rcases List.append_eq_append_iff.mp split with
    ⟨between, rfl, tail⟩ | ⟨between, rfl, tail⟩
  · cases between with
    | nil =>
        cases tail
        rw [own, Option.mem_some_iff] at isSlot
        exact isSlot ▸ inside
    | cons next between =>
        cases tail
        exact absurd nodup (twice between)
  · cases between with
    | nil =>
        cases tail
        rw [own, Option.mem_some_iff] at isSlot
        exact isSlot ▸ inside
    | cons next between =>
        cases tail
        refine filled.inside ?_ isSlot
        exact List.mem_append_right _ List.mem_cons_self

theorem Filled.placed
    {size : Nat} {first coinds : List Nat} {auxs : AuxArray}
    {records new : List CoindAux}
    (filled : Filled size first auxs records new)
    (loaded : ∀ coind ∈ coinds, coind < records.length) :
    Placed size (first ++ coinds) records
      (placeCoinds size coinds auxs new) := by
  induction coinds generalizing first auxs new with
  | nil =>
      rw [List.append_nil, placeCoinds]
      refine Placed.placed ?_ filled
      intro before coind rest split _ slot isSlot
      refine filled.inside ?_ isSlot
      rw [split]
      exact List.mem_append_right _ List.mem_cons_self
  | cons coind coinds ih =>
      have bound := loaded coind List.mem_cons_self
      rw [← filled.reindexed.length] at bound
      obtain ⟨aux, found⟩ : ∃ aux, new[coind]? = some aux :=
        ⟨_, List.getElem?_eq_getElem bound⟩
      have own :
          slotOf records size coind =
            some (auxPosition aux.chainid size) := by
        rw [← filled.reindexed.slotOf_eq, slotOf, found, Option.map_some]
      rw [placeCoinds, found]
      dsimp only
      split
      · rename_i inside
        split
        · rename_i busy
          have shared :
              some (auxPosition aux.chainid size) ∈
                first.map (slotOf records size) := by
            by_contra unshared
            have free := filled.slots.others _ inside unshared
            rw [Vector.getElem?_eq_getElem inside,
              Option.some.injEq] at free
            rw [free] at busy
            cases busy
          obtain ⟨reached, twice⟩ := filled.taken own inside shared
          exact Placed.taken reached twice
            (filled.reindexed.mono fun other member =>
              List.mem_append_left _ member)
        · rename_i free
          have next := filled.append found inside (by
            rw [Vector.getElem?_eq_getElem inside]
            simpa using free)
          have rest := ih next fun other member =>
            loaded other (List.mem_cons_of_mem _ member)
          rwa [List.append_assoc] at rest
      · rename_i outside
        refine Placed.outside fun reached => outside ?_
        exact reached first coind coinds rfl filled.slots.different _ own

/-! ## All sizes -/

/-- The first size that separates, among the exponents from `i` on. -/
def FitsFrom (coins : MineableCoins) (i : Nat) : Prop :=
  ∃ k, i ≤ k ∧ k < 31 ∧ Separates coins.records coins.coinds (2 ^ k) ∧
    (∀ j, i ≤ j → j < k → ¬ Separates coins.records coins.coinds (2 ^ j)) ∧
      ∀ j, i ≤ j → j ≤ k → coins.coinds.length ≤ 2 ^ j →
        ReachedInside coins.records coins.coinds (2 ^ j)

/-- An exponent that is passed over. -/
theorem fitsFrom_succ_iff {coins : MineableCoins} {i : Nat}
    (shared : ¬ Separates coins.records coins.coinds (2 ^ i))
    (inside : coins.coinds.length ≤ 2 ^ i →
      ReachedInside coins.records coins.coinds (2 ^ i)) :
    FitsFrom coins (i + 1) ↔ FitsFrom coins i := by
  constructor
  · rintro ⟨k, from_i, below, separates, before, reached⟩
    refine ⟨k, by omega, below, separates, fun j atLeast less => ?_,
      fun j atLeast upTo fits => ?_⟩
    · rcases Nat.eq_or_lt_of_le atLeast with rfl | later
      · exact shared
      · exact before j later less
    · rcases Nat.eq_or_lt_of_le atLeast with rfl | later
      · exact inside fits
      · exact reached j later upTo fits
  · rintro ⟨k, from_i, below, separates, before, reached⟩
    have different : i ≠ k := by
      rintro rfl
      exact shared separates
    exact ⟨k, by omega, below, separates,
      fun j atLeast less => before j (by omega) less,
      fun j atLeast upTo fits => reached j (by omega) upTo fits⟩

theorem toInt32_two_pow {i : Nat} (bound : i < 31) :
    toInt32 (2 ^ i) = ((2 ^ i : Nat) : Int) := by
  have small : 2 ^ i < 2 ^ 31 := Nat.pow_lt_pow_right (by decide) bound
  have value := toInt32_of_lt small
  rwa [Nat.cast_pow, Nat.cast_ofNat] at value ⊢

/-- The table of the first size that separates is the one that is wanted. -/
theorem tableBuilt_of_filled {coins : MineableCoins} {i : Nat}
    {auxs : AuxArray} {new : List CoindAux} (bound : i < 31)
    (enough : coins.coinds.length ≤ 2 ^ i)
    (slots :
      SlotsFilled (slotOf coins.records (2 ^ i)) coins.coinds auxs new) :
    TableBuilt coins
      (some ({ auxs := auxs, auxsSize := toInt32 (2 ^ i) }, new)) := by
  have same :
      slotOf coins.records (2 ^ i) =
        fun coind => coins.records[coind]?.map fun aux =>
          chainSlot aux.chainid (2 ^ i) := by
    funext coind
    rw [slotOf]
    congr 1
    funext aux
    exact auxPosition_two_pow aux.chainid (by omega)
  refine ⟨_, _, rfl, Or.inr ⟨i, ?_, enough, same ▸ slots⟩⟩
  rw [toInt32_two_pow bound, Nat.cast_pow, Nat.cast_ofNat]

/-- The last size overflows, and is below any number of coins. -/
theorem trySizes_last (coinds : List Nat) (auxsSize : Int)
    (records : List CoindAux) :
    trySizes coinds [31] auxsSize records =
      some ({ auxs := noAuxs, auxsSize := -2 ^ 31 }, records) := by
  have overflow : toInt32 (2 ^ 31) = -2 ^ 31 := by decide
  rw [trySizes, overflow, if_pos (by omega), trySizes]

/-- The loop over the sizes, from the exponent `i` up to the last one. -/
theorem tableBuilt_trySizes_iff {coins : MineableCoins} {i count : Nat}
    (last : i + count = 31) {auxsSize : Int} {records : List CoindAux}
    (reindexed : Reindexed coins.coinds coins.records records) :
    TableBuilt coins
        (trySizes coins.coinds (List.range' i (count + 1)) auxsSize
          records) ↔
      FitsFrom coins i := by
  induction count generalizing i auxsSize records with
  | zero =>
      have final : i = 31 := by omega
      subst final
      rw [List.range'_one, trySizes_last]
      constructor
      · rintro ⟨table, new, same, built⟩
        cases same
        rcases built with zero | ⟨k, power, -⟩
        · exact absurd zero (by decide)
        · have nonneg : (0 : Int) ≤ 2 ^ k := pow_nonneg (by decide) k
          rw [← power] at nonneg
          exact absurd nonneg (by decide)
      · rintro ⟨k, from_31, below, -⟩
        omega
  | succ count ih =>
      have bound : i < 31 := by omega
      have next : i + 1 + count = 31 := by omega
      rw [List.range'_succ, trySizes, toInt32_two_pow bound]
      split
      · rename_i small
        refine (ih next reindexed).trans (fitsFrom_succ_iff ?_ ?_)
        · intro separates
          have enough := separates.1
          omega
        · intro enough
          omega
      · rename_i tried
        have enough : coins.coinds.length ≤ 2 ^ i := by omega
        have sameSlots :
            slotOf records (2 ^ i) = slotOf coins.records (2 ^ i) :=
          funext (reindexed.slotOf_eq (2 ^ i))
        have loaded : ∀ coind ∈ coins.coinds, coind < records.length := by
          rw [reindexed.length]
          exact coins.loaded
        have placed := (filled_nil (2 ^ i) records).placed loaded
        rw [List.nil_append] at placed
        have reached :
            ReachedInside records coins.coinds (2 ^ i) ↔
              ReachedInside coins.records coins.coinds (2 ^ i) := by
          rw [ReachedInside, ReachedInside, sameSlots]
        rw [Int.toNat_natCast]
        revert placed
        cases placeCoinds (2 ^ i) coins.coinds noAuxs records with
        | outside =>
            rintro ⟨unreached⟩
            refine iff_of_false ?_ ?_
            · rintro ⟨table, new, built, -⟩
              cases built
            · rintro ⟨k, from_i, -, -, -, inside⟩
              exact unreached (reached.mpr (inside i le_rfl from_i enough))
        | taken new =>
            rintro (_ | ⟨inside, shared, again⟩)
            rw [sameSlots] at shared
            refine (ih next (reindexed.trans again)).trans
              (fitsFrom_succ_iff ?_ fun _ => reached.mp inside)
            exact fun separates => shared separates.2
        | placed auxs new =>
            rintro (_ | _ | ⟨inside, filled⟩)
            have slots := filled.slots
            rw [sameSlots] at slots
            refine iff_of_true ?_ ⟨i, le_rfl, bound, ?_, ?_, ?_⟩
            · have built := tableBuilt_of_filled bound enough slots
              rwa [toInt32_two_pow bound] at built
            · exact ⟨enough, slots.different⟩
            · intro j atLeast less
              omega
            · intro j atLeast upTo _
              obtain rfl : j = i := by omega
              exact reached.mp inside

/-- The slots are built as they should be exactly when they fit. -/
theorem slotsBuilt_iff (coins : MineableCoins) :
    SlotsBuilt coins ↔ SlotsFit coins := by
  rw [SlotsBuilt, SlotsFit, buildAuxTable]
  split
  · rename_i empty
    exact iff_of_true ⟨_, _, rfl, Or.inl rfl⟩ (Or.inl empty)
  · rename_i occupied
    have exponents : List.range maxAuxs = List.range' 0 (31 + 1) :=
      List.range_eq_range'
    rw [or_iff_right occupied, exponents,
      tableBuilt_trySizes_iff rfl (Reindexed.refl _ _), FitsFrom]
    simp only [Nat.zero_le, true_and, forall_const]

/-! ## The list of slots -/

/-- The first slots of the array, empty behind its end. -/
def slotList (auxs : AuxArray) (size : Nat) : List (Option Nat) :=
  (List.range size).map fun slot => auxs[slot]?.join

def AuxTable.slots (table : AuxTable) : List (Option Nat) :=
  slotList table.auxs table.auxsSize.toNat

theorem slotList_noAuxs (size : Nat) :
    slotList noAuxs size = List.replicate size none := by
  have empty (slot : Nat) : noAuxs[slot]?.join = none := by
    rw [noAuxs, Vector.getElem?_replicate]
    split <;> rfl
  rw [slotList]
  simp only [empty, List.map_const', List.length_range]

theorem slotList_set (auxs : AuxArray) {size pos : Nat}
    (inside : pos < maxAuxs) (value : Option Nat) :
    slotList (auxs.set pos value) size =
      (slotList auxs size).set pos value := by
  refine List.ext_getElem (by simp [slotList]) fun slot below _ => ?_
  rw [slotList, List.length_map, List.length_range] at below
  rw [List.getElem_set]
  simp only [slotList, List.getElem_map, List.getElem_range,
    Vector.getElem?_set]
  split
  · rfl
  · rfl

theorem getD_slotList (auxs : AuxArray) {size pos : Nat}
    (below : pos < size) (inside : pos < maxAuxs) :
    (slotList auxs size).getD pos none = auxs[pos] := by
  rw [slotList, List.getD_eq_getElem?_getD, List.getElem?_map,
    List.getElem?_range below, Option.map_some, Option.getD_some,
    Vector.getElem?_eq_getElem inside, Option.join_some]

/-- Without an access outside of the array the two loops agree. -/
theorem placeAuxs_eq {size : Nat} (positive : 0 < size) (coinds : List Nat)
    (auxs : AuxArray) (records : List CoindAux) :
    match placeCoinds size coinds auxs records with
    | .outside => True
    | .taken new =>
        placeAuxs size coinds (slotList auxs size) records = (false, [], new)
    | .placed filled new =>
        placeAuxs size coinds (slotList auxs size) records =
          (true, slotList filled size, new) := by
  induction coinds generalizing auxs records with
  | nil => rfl
  | cons coind coinds ih =>
      rw [placeCoinds, placeAuxs]
      cases records[coind]? with
      | none => exact ih auxs records
      | some aux =>
          dsimp only
          by_cases inside : auxPosition aux.chainid size < maxAuxs
          · have below := auxPosition_lt aux.chainid positive
            rw [dif_pos inside, getD_slotList auxs below inside]
            by_cases busy : auxs[auxPosition aux.chainid size].isSome
            · rw [if_pos busy, if_pos busy]
            · rw [if_neg busy, if_neg busy, ← slotList_set auxs inside]
              exact ih _ _
          · rw [dif_neg inside]
            trivial

/-- A size that is used is used by both loops. -/
theorem tryAuxs_of_trySizes {coinds : List Nat} {i count : Nat}
    (last : i + count = 31) {auxsSize : Int}
    {records new : List CoindAux} {table : AuxTable}
    (built :
      trySizes coinds (List.range' i (count + 1)) auxsSize records =
        some (table, new))
    (nonneg : 0 ≤ table.auxsSize) :
    tryAuxs coinds (List.range' i (count + 1)) records =
      (table.slots, new) := by
  induction count generalizing i auxsSize records with
  | zero =>
      have final : i = 31 := by omega
      subst final
      rw [List.range'_one, trySizes_last] at built
      cases built
      exact absurd nonneg (by decide)
  | succ count ih =>
      have bound : i < 31 := by omega
      have next : i + 1 + count = 31 := by omega
      have agree := placeAuxs_eq (Nat.two_pow_pos i) coinds noAuxs records
      rw [slotList_noAuxs] at agree
      rw [List.range'_succ, trySizes, toInt32_two_pow bound,
        Int.toNat_natCast] at built
      rw [List.range'_succ, tryAuxs]
      by_cases small : 2 ^ i < coinds.length
      · rw [if_pos (by omega)] at built
        rw [if_pos small]
        exact ih next built
      · rw [if_neg (by omega)] at built
        rw [if_neg small]
        cases outcome : placeCoinds (2 ^ i) coinds noAuxs records with
        | outside =>
            rw [outcome] at built
            cases built
        | taken reindexed =>
            rw [outcome] at built agree
            rw [agree]
            exact ih next built
        | placed auxs placed =>
            rw [outcome] at built agree
            rw [agree]
            cases built
            rfl

/-- The list of slots is that of the array, when no access is outside. -/
theorem coindAuxBuildAuxs_of_buildAuxTable {coinds : List Nat}
    {records new : List CoindAux} {table : AuxTable}
    (built : buildAuxTable coinds records = some (table, new))
    (nonneg : 0 ≤ table.auxsSize) :
    coindAuxBuildAuxs coinds records = (table.slots, new) := by
  rw [buildAuxTable] at built
  rw [coindAuxBuildAuxs]
  split at built
  · rename_i empty
    rw [if_pos empty]
    cases built
    rfl
  · rename_i occupied
    have exponents : List.range maxAuxs = List.range' 0 (31 + 1) :=
      List.range_eq_range'
    rw [exponents] at built ⊢
    rw [if_neg occupied]
    exact tryAuxs_of_trySizes rfl built nonneg

/-! ## A slot behind the end -/

/-- Two coins whose chain ids differ by 32. -/
def farApart : MineableCoins where
  records :=
    [{ index := 0, chainid := 1, hash := zeroHash },
      { index := 0, chainid := 33, hash := zeroHash }]
  coinds := [0, 1]
  loaded := by decide

/-- The coins share a slot up to size 32, and at size 64 one is outside. -/
theorem not_slotsBuilt_farApart : ¬ SlotsBuilt farApart := by
  have outside :
      (buildAuxTable farApart.coinds farApart.records).isNone = true := by
    decide
  rintro ⟨table, records, built, -⟩
  rw [built] at outside
  cases outside

end YiimpStratum.Merged
