import Mathlib.Algebra.BigOperators.Group.List.Basic
import Mathlib.Algebra.Order.Ring.Rat
import YiimpStratum.Lists.Sort
import YiimpStratum.Util.Hex

/-!
# Coins in the order of their profitability

`coind_sort` and `coind_profitability`.  The profitability of a coin that is
neither auxiliary nor proof of stake adds up that of all the auxiliary coins in
the list.  The sort does not compare a deleted coin with its neighbours, and so
no coin passes it.

The doubles are taken as rational numbers.
-/

namespace YiimpStratum.Lists

open YiimpStratum
open YiimpStratum.AdjacentSwaps
open YiimpStratum.DoublyLinked
open YiimpStratum.Rounds
open YiimpStratum.Util

variable {Data : Type}

/-! ## Coins -/

/-- The fields of `YAAMP_COIND` that its profitability depends on. -/
structure YaampCoind where
  deleted : Bool
  enable : Bool
  autoReady : Bool
  /-- `rpc.sock` -/
  sock : Int
  height : Int
  difficulty : Rat
  reward : Rat
  price : Rat
  poolTtf : Int
  isaux : Bool
  pos : Bool
  deriving DecidableEq

/-- `g_current_algo->name` and `g_stratum_max_ttf` -/
structure SortConfig where
  algo : CString
  maxTtf : Int

/-- `coind_can_mine` -/
def coindCanMine (coind : YaampCoind) (isaux : Bool) : Bool :=
  !coind.deleted && coind.enable && coind.autoReady &&
    decide (0 < coind.sock) && decide (coind.height ≠ 0) &&
      decide (coind.difficulty ≠ 0) && coind.isaux == isaux

section Definitions

variable (config : SortConfig) (coins : Data → YaampCoind)

/-- The profitability of a coin without the auxiliary coins. -/
def ownProfitability (coind : YaampCoind) : Rat :=
  let prof := 20116.56761169 / coind.difficulty * coind.reward * coind.price
  if config.algo = "sha256".toList then prof * 1000 else prof

/-- The loop of `coind_profitability` over the auxiliary coins. -/
def profitabilityLoop (list : CommonList Data)
    (coindProfitability : YaampCoind → Option Rat) :
    Nat → Nat → Rat → Option Rat
  | 0, _, _ => none
  | rounds + 1, li, prof =>
      if li = 0 then some prof
      else do
        let item ← list.items li
        let aux := coins item.data
        if coindCanMine aux true then do
          let more ← coindProfitability aux
          profitabilityLoop list coindProfitability rounds item.next
            (prof + more)
        else profitabilityLoop list coindProfitability rounds item.next prof

/-- `coind_profitability` -/
def coindProfitability (list : CommonList Data) :
    Nat → YaampCoind → Option Rat
  | 0, _ => none
  | rounds + 1, coind =>
      if coind.difficulty = 0 then some 0
      else if config.maxTtf < coind.poolTtf then some 0
      else
        let prof := ownProfitability config coind
        if coind.isaux = false ∧ coind.pos = false then
          profitabilityLoop coins list (coindProfitability list rounds) rounds
            list.first prof
        else some prof

/-- The test of two neighbours in `coind_sort`. -/
def coindTest (rounds : Nat) (list : CommonList Data) (data1 data2 : Data) :
    Option Bool :=
  let coind1 := coins data1
  let coind2 := coins data2
  if coind1.deleted then some false
  else if coind2.deleted then some false
  else do
    let p1 ← coindProfitability config coins list rounds coind1
    let p2 ← coindProfitability config coins list rounds coind2
    return decide (p1 < p2)

/-- `coind_sort` -/
def coindSort (list : CommonList Data) (rounds : Nat) :
    Option (CommonList Data) :=
  list.sortFrom (coindTest config coins rounds) rounds list.first

end Definitions

/-! ## Profitability -/

section Profitability

variable (config : SortConfig) (coins : Data → YaampCoind)

/-- The profitability of an auxiliary coin. -/
def auxProfitability (coind : YaampCoind) : Rat :=
  if coind.difficulty = 0 then 0
  else if config.maxTtf < coind.poolTtf then 0
  else ownProfitability config coind

/-- The auxiliary coins of a list together. -/
def auxsProfitability (data : List Data) : Rat :=
  (((data.map coins).filter fun coind => coindCanMine coind true).map
    (auxProfitability config)).sum

/-- The profitability of a coin in a list with these data. -/
def profitability (data : List Data) (coind : YaampCoind) : Rat :=
  if coind.difficulty = 0 then 0
  else if config.maxTtf < coind.poolTtf then 0
  else if coind.isaux = false ∧ coind.pos = false then
    ownProfitability config coind + auxsProfitability config coins data
  else ownProfitability config coind

variable {config coins}

theorem auxsProfitability_cons (first : Data) (data : List Data) :
    auxsProfitability config coins (first :: data) =
      (if coindCanMine (coins first) true then
          auxProfitability config (coins first)
        else 0) +
        auxsProfitability config coins data := by
  rw [auxsProfitability, List.map_cons, List.filter_cons]
  split
  · rw [List.map_cons, List.sum_cons]
    rfl
  · exact (zero_add _).symm

theorem profitabilityLoop_linked {list : CommonList Data} {prev : Nat}
    {nodes : List (Nat × Data)} (linked : Linked list.items prev nodes 0)
    {value : YaampCoind → Option Rat}
    (auxs :
      ∀ coind, coindCanMine coind true = true →
        value coind = some (auxProfitability config coind))
    {rounds : Nat} (enough : nodes.length < rounds) (prof : Rat) :
    profitabilityLoop coins list value rounds (headAddress nodes 0) prof =
      some (prof + auxsProfitability config coins (nodes.map Prod.snd)) := by
  induction rounds generalizing prev nodes prof with
  | zero => exact absurd enough (Nat.not_lt_zero _)
  | succ rounds ih =>
      cases nodes with
      | nil => exact congrArg some (add_zero prof).symm
      | cons node rest =>
          obtain ⟨nonzero, cell, behind⟩ := linked
          have fewer := Nat.lt_of_succ_lt_succ enough
          rw [profitabilityLoop, headAddress_cons, if_neg nonzero, cell]
          dsimp only [Option.bind_eq_bind, Option.bind_some]
          rw [List.map_cons, auxsProfitability_cons]
          by_cases mines : coindCanMine (coins node.2) true = true
          · rw [if_pos mines, if_pos mines, auxs _ mines, ← add_assoc]
            exact ih behind fewer _
          · rw [if_neg mines, if_neg mines, zero_add]
            exact ih behind fewer prof

theorem isaux_of_coindCanMine {coind : YaampCoind} {isaux : Bool}
    (mines : coindCanMine coind isaux = true) : coind.isaux = isaux := by
  rw [coindCanMine, Bool.and_eq_true, beq_iff_eq] at mines
  exact mines.2

/-- An auxiliary coin does not add up the others. -/
theorem coindProfitability_aux {list : CommonList Data} {coind : YaampCoind}
    (mines : coindCanMine coind true = true) (rounds : Nat) :
    coindProfitability config coins list (rounds + 1) coind =
      some (auxProfitability config coind) := by
  have isaux := isaux_of_coindCanMine mines
  rw [coindProfitability, auxProfitability]
  split
  · rfl
  · split
    · rfl
    · exact if_neg fun both => Bool.false_ne_true (both.1.symm.trans isaux)

/-- The loop over the items gives the profitability. -/
theorem coindProfitability_eq {list : CommonList Data}
    {nodes : List (Nat × Data)} (holds : Represents list nodes)
    {rounds : Nat} (enough : nodes.length + 1 < rounds) (coind : YaampCoind) :
    coindProfitability config coins list rounds coind =
      some (profitability config coins (nodes.map Prod.snd) coind) := by
  match rounds, enough with
  | rounds + 2, enough =>
      rw [coindProfitability, profitability]
      split
      · rfl
      · split
        · rfl
        · split
          · rw [holds.first]
            exact
              profitabilityLoop_linked holds.linked
                (fun _ mines => coindProfitability_aux mines rounds)
                (Nat.lt_of_succ_lt_succ enough) _
          · rfl

/-- The order of the items does not matter. -/
theorem profitability_perm {data data' : List Data} (perm : data'.Perm data)
    (coind : YaampCoind) :
    profitability config coins data' coind =
      profitability config coins data coind := by
  have auxs :
      auxsProfitability config coins data' =
        auxsProfitability config coins data :=
    (((perm.map _).filter _).map _).sum_eq
  rw [profitability, profitability, auxs]

end Profitability

/-! ## The sort -/

section Sorting

variable (config : SortConfig) (coins : Data → YaampCoind)

/-- The coin of an item is not deleted. -/
def live (data : Data) : Bool :=
  !(coins data).deleted

/-- The order that the sort compares: of the coins that are not deleted. -/
def lessProfitable (data : List Data) (data1 data2 : Data) : Prop :=
  WrongKeys (live coins)
    (fun item => profitability config coins data (coins item)) data1 data2

instance (data : List Data) : DecidableRel (lessProfitable config coins data) :=
  fun _ _ => inferInstanceAs (Decidable (_ ∧ _ ∧ _))

variable {config coins}

theorem coindTest_tests {nodes : List (Nat × Data)} {rounds : Nat}
    (enough : nodes.length + 1 < rounds) :
    Tests (lessProfitable config coins (nodes.map Prod.snd)) nodes
      (coindTest config coins rounds) := by
  intro other nodes' holds perm data1 data2
  have enough' : nodes'.length + 1 < rounds := by
    rw [perm.length_eq]
    exact enough
  rw [coindTest]
  cases deleted1 : (coins data1).deleted with
  | true =>
      have dead : live coins data1 = false := congrArg not deleted1
      have right : ¬ lessProfitable config coins (nodes.map Prod.snd) data1
          data2 :=
        fun wrong => Bool.false_ne_true (dead.symm.trans wrong.1)
      rw [decide_eq_false right]
      rfl
  | false =>
      cases deleted2 : (coins data2).deleted with
      | true =>
          have dead : live coins data2 = false := congrArg not deleted2
          have right : ¬ lessProfitable config coins (nodes.map Prod.snd) data1
              data2 :=
            fun wrong => Bool.false_ne_true (dead.symm.trans wrong.2.1)
          rw [decide_eq_false right]
          rfl
      | false =>
          have live1 : live coins data1 = true := congrArg not deleted1
          have live2 : live coins data2 = true := congrArg not deleted2
          rw [coindProfitability_eq holds enough',
            coindProfitability_eq holds enough',
            profitability_perm (perm.map Prod.snd),
            profitability_perm (perm.map Prod.snd)]
          refine congrArg some (decide_eq_decide.mpr ?_)
          exact ⟨fun less => ⟨live1, live2, less⟩, fun wrong => wrong.2.2⟩

/-- What the loop leaves, and that it ends. -/
theorem coindSort_returns {list : CommonList Data}
    {nodes : List (Nat × Data)} (holds : Represents list nodes) :
    ∃ list' nodes',
      Sorted (lessProfitable config coins (nodes.map Prod.snd)) list' nodes
        nodes' ∧
        Returns (coindSort config coins list) list' := by
  have asymm :
      ∀ data1 data2,
        lessProfitable config coins (nodes.map Prod.snd) data1 data2 →
          ¬ lessProfitable config coins (nodes.map Prod.snd) data2 data1 :=
    fun _ _ wrong other => lt_asymm wrong.2.2 other.2.2
  obtain ⟨list', nodes', sorted, enough, returns⟩ :=
    sortEnds_first asymm holds
  refine
    ⟨list', nodes', sorted, max enough (nodes.length + 2),
      fun rounds more => ?_⟩
  exact
    returns _ (coindTest_tests (le_of_max_le_right more)) rounds
      (le_of_max_le_left more)

/--
`coind_sort` ends with the coins that are not deleted in the order of their
profitability exactly when the coins on the two sides of every deleted one were
in this order before.
-/
theorem coindSort_sorts_iff (config : SortConfig) (coins : Data → YaampCoind)
    {list : CommonList Data} {nodes : List (Nat × Data)}
    (holds : Represents list nodes) :
    (∃ list' nodes', Returns (coindSort config coins list) list' ∧
        Represents list' nodes' ∧ nodes'.Perm nodes ∧
          ((nodes'.map Prod.snd).filter (live coins)).Pairwise
            fun data1 data2 =>
              profitability config coins (nodes'.map Prod.snd) (coins data2) ≤
                profitability config coins (nodes'.map Prod.snd)
                  (coins data1)) ↔
      Apart (live coins)
        (fun data =>
          profitability config coins (nodes.map Prod.snd) (coins data))
        (nodes.map Prod.snd) := by
  obtain ⟨list', nodes', sorted, returns⟩ :=
    @coindSort_returns _ config coins _ _ holds
  have perm := perm_of_swaps sorted.swaps
  have sortedIff := pairwise_iff_apart sorted.data_swaps sorted.data_chain
  rw [← sortedIff]
  constructor
  · rintro ⟨other, nodes'', returns', holds', -, inOrder⟩
    have same := returns.unique returns'
    subst same
    have sameNodes := sorted.holds.unique holds'
    subst sameNodes
    simp only [profitability_perm (perm.map Prod.snd)] at inOrder
    exact inOrder
  · intro inOrder
    refine ⟨list', nodes', returns, sorted.holds, perm, ?_⟩
    simp only [profitability_perm (perm.map Prod.snd)]
    exact inOrder

/-! ### Three coins, the second one deleted -/

def threeConfig : SortConfig where
  algo := "x11".toList
  maxTtf := 0x70000000

/-- Three coins at these prices. -/
def threeCoins (price : Nat → Rat) (data : Nat) : YaampCoind where
  deleted := data == 1
  enable := true
  autoReady := true
  sock := 1
  height := 1
  difficulty := 1
  reward := 1
  price := price data
  poolTtf := 0
  isaux := false
  pos := false

def threeItems : CommonList Nat where
  count := 3
  first := 1
  last := 3
  items := fun item =>
    if item = 1 then some ⟨0, 0, 2⟩
    else if item = 2 then some ⟨1, 1, 3⟩
    else if item = 3 then some ⟨2, 2, 0⟩
    else none

theorem represents_threeItems :
    Represents threeItems [(1, 0), (2, 1), (3, 2)] where
  linked := ⟨by decide, rfl, by decide, rfl, by decide, rfl, trivial⟩
  first := rfl
  last := rfl
  count := rfl

/-- With falling prices the coins are in order. -/
theorem coindSort_threeItems :
    ∃ list' nodes',
      Returns (coindSort threeConfig (threeCoins fun data => 3 - data)
        threeItems) list' ∧
      Represents list' nodes' ∧ nodes'.Perm [(1, 0), (2, 1), (3, 2)] ∧
        ((nodes'.map Prod.snd).filter
            (live (threeCoins fun data => 3 - data))).Pairwise
          fun data1 data2 =>
            profitability threeConfig (threeCoins fun data => 3 - data)
                (nodes'.map Prod.snd)
                (threeCoins (fun data => 3 - data) data2) ≤
              profitability threeConfig (threeCoins fun data => 3 - data)
                (nodes'.map Prod.snd)
                (threeCoins (fun data => 3 - data) data1) := by
  refine (coindSort_sorts_iff _ _ represents_threeItems).mpr ?_
  refine apart_of_pairwise ?_
  decide +kernel

/-- With rising prices the first and the last coin are in the wrong order. -/
theorem not_sorted_threeItems :
    ¬ ∃ list' nodes',
      Returns (coindSort threeConfig (threeCoins fun data => data)
        threeItems) list' ∧
      Represents list' nodes' ∧ nodes'.Perm [(1, 0), (2, 1), (3, 2)] ∧
        ((nodes'.map Prod.snd).filter
            (live (threeCoins fun data => data))).Pairwise
          fun data1 data2 =>
            profitability threeConfig (threeCoins fun data => data)
                (nodes'.map Prod.snd) (threeCoins (fun data => data) data2) ≤
              profitability threeConfig (threeCoins fun data => data)
                (nodes'.map Prod.snd)
                (threeCoins (fun data => data) data1) := by
  rintro ⟨list', nodes', returns, holds, -, inOrder⟩
  have unchanged :
      Returns (coindSort threeConfig (threeCoins fun data => data) threeItems)
        threeItems :=
    ⟨3, fun rounds enough => by
      match rounds, enough with
      | rounds + 3, _ => rfl⟩
  obtain rfl := returns.unique unchanged
  obtain rfl := holds.unique represents_threeItems
  revert inOrder
  decide +kernel

end Sorting

end YiimpStratum.Lists
