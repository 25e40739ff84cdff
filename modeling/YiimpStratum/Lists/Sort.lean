import YiimpStratum.Library.AdjacentSwaps
import YiimpStratum.Library.Run
import YiimpStratum.Lists.Invariant

/-!
# The loop of the sorts

`job_sort` and `coind_sort` pass over a list until two neighbours are in the
wrong order, swap their items and start again.  The end of it is that every
swap takes away an inversion; between two swaps the loop only goes on.
-/

namespace YiimpStratum.Lists

open YiimpStratum
open YiimpStratum.AdjacentSwaps
open YiimpStratum.DoublyLinked
open YiimpStratum.Rounds

variable {Data : Type}

/-! ## The loop -/

/-- The loop from an item on; the test of two neighbours may read the list. -/
def CommonList.sortFrom
    (test : CommonList Data → Data → Data → Option Bool) :
    Nat → CommonList Data → Nat → Option (CommonList Data)
  | 0, _, _ => none
  | rounds + 1, list, li =>
      if li = 0 then some list
      else do
        let item1 ← list.items li
        if item1.next = 0 then some list
        else do
          let item2 ← list.items item1.next
          let swaps ← test list item1.data item2.data
          if swaps then do
            let swapped ← list.swap li item1.next
            sortFrom test rounds swapped swapped.first
          else sortFrom test rounds list item1.next

/-- The test of two neighbours, for every list of the same items. -/
def Tests (wrong : Data → Data → Prop) [DecidableRel wrong]
    (nodes : List (Nat × Data))
    (test : CommonList Data → Data → Data → Option Bool) : Prop :=
  ∀ list nodes', Represents list nodes' → nodes'.Perm nodes →
    ∀ first second, test list first second = some (decide (wrong first second))

/-! ## One round -/

section Round

variable {wrong : Data → Data → Prop} [DecidableRel wrong]
variable {test : CommonList Data → Data → Data → Option Bool}
variable {list : CommonList Data} {front rest : List (Nat × Data)}
variable {first second : Nat × Data}

/-- The loop ends at the last item. -/
theorem sortFrom_last (holds : Represents list (front ++ [first]))
    (rounds : Nat) :
    list.sortFrom test (rounds + 1) first.1 = some list := by
  rw [CommonList.sortFrom, if_neg holds.ne_zero, holds.cell]
  rfl

/-- Two neighbours in the right order are passed. -/
theorem sortFrom_pass
    (holds : Represents list (front ++ first :: second :: rest))
    (passes : test list first.2 second.2 = some false) (rounds : Nat) :
    list.sortFrom test (rounds + 1) first.1 =
      list.sortFrom test rounds second.1 := by
  have behind := holds
  rw [List.append_cons] at behind
  rw [CommonList.sortFrom, if_neg holds.ne_zero, holds.cell]
  dsimp only [Option.bind_eq_bind, Option.bind_some, headAddress_cons]
  rw [if_neg behind.ne_zero, behind.cell]
  dsimp only [Option.bind_some]
  rw [passes]
  rfl

/-- Two neighbours in the wrong order are swapped. -/
theorem sortFrom_swap
    (holds : Represents list (front ++ first :: second :: rest))
    (fails : test list first.2 second.2 = some true) {swapped : CommonList Data}
    (isSwapped : list.swap first.1 second.1 = some swapped) (rounds : Nat) :
    list.sortFrom test (rounds + 1) first.1 =
      swapped.sortFrom test rounds swapped.first := by
  have behind := holds
  rw [List.append_cons] at behind
  rw [CommonList.sortFrom, if_neg holds.ne_zero, holds.cell]
  dsimp only [Option.bind_eq_bind, Option.bind_some, headAddress_cons]
  rw [if_neg behind.ne_zero, behind.cell]
  dsimp only [Option.bind_some]
  rw [fails]
  dsimp only [Option.bind_some]
  rw [if_pos rfl, isSwapped]
  rfl

end Round

/-! ## The whole loop -/

/-- Two items in the wrong order. -/
def WrongNodes (wrong : Data → Data → Prop) (first second : Nat × Data) :
    Prop :=
  wrong first.2 second.2

instance {wrong : Data → Data → Prop} [DecidableRel wrong] :
    DecidableRel (WrongNodes wrong) :=
  fun first second => inferInstanceAs (Decidable (wrong first.2 second.2))

/-- What a sort leaves: swaps led to it, and no neighbours are to be swapped. -/
structure Sorted (wrong : Data → Data → Prop) (list : CommonList Data)
    (nodes nodes' : List (Nat × Data)) : Prop where
  holds : Represents list nodes'
  swaps : Relation.ReflTransGen (Swap (WrongNodes wrong)) nodes nodes'
  chain :
    nodes'.IsChain fun first second => ¬ WrongNodes wrong first second

/-- The data are swapped like the items. -/
theorem Sorted.data_swaps {wrong : Data → Data → Prop}
    {list : CommonList Data} {nodes nodes' : List (Nat × Data)}
    (sorted : Sorted wrong list nodes nodes') :
    Relation.ReflTransGen (Swap wrong) (nodes.map Prod.snd)
      (nodes'.map Prod.snd) := by
  refine sorted.swaps.lift (List.map Prod.snd) fun items items' swap => ?_
  obtain ⟨front, first, second, rest, rfl, rfl, isWrong⟩ := swap
  exact
    ⟨front.map Prod.snd, first.2, second.2, rest.map Prod.snd,
      List.map_append, List.map_append, isWrong⟩

theorem Sorted.data_chain {wrong : Data → Data → Prop}
    {list : CommonList Data} {nodes nodes' : List (Nat × Data)}
    (sorted : Sorted wrong list nodes nodes') :
    (nodes'.map Prod.snd).IsChain fun first second => ¬ wrong first second :=
  (List.isChain_map Prod.snd).mpr sorted.chain

theorem isChain_take_one (related : Data → Data → Prop) (items : List Data) :
    (items.take 1).IsChain related := by
  cases items with
  | nil => exact .nil
  | cons first rest => exact .singleton first

/-- The loop, with `front` behind it, ends with neighbours in order. -/
def SortEnds (wrong : Data → Data → Prop) [DecidableRel wrong]
    (list : CommonList Data) (front rest : List (Nat × Data)) : Prop :=
  ∃ list' nodes', Sorted wrong list' (front ++ rest) nodes' ∧
    ∃ enough, ∀ test, Tests wrong (front ++ rest) test →
      ∀ rounds, enough ≤ rounds →
        list.sortFrom test rounds (headAddress rest 0) = some list'

section Steps

variable {wrong : Data → Data → Prop} [DecidableRel wrong]
variable {list : CommonList Data} {front rest : List (Nat × Data)}
variable {first second : Nat × Data}

/-- A list in order is left as it is. -/
theorem SortEnds.of_chain (holds : Represents list (front ++ rest))
    (short : rest.length ≤ 1)
    (chain :
      (front ++ rest).IsChain fun first second =>
        ¬ WrongNodes wrong first second) :
    SortEnds wrong list front rest := by
  refine ⟨list, front ++ rest, ⟨holds, .refl, chain⟩, 1, ?_⟩
  intro test _ rounds enough
  cases rounds with
  | zero => exact absurd enough (Nat.not_succ_le_zero _)
  | succ rounds =>
      match rest, short with
      | [], _ => rfl
      | [last], _ => exact sortFrom_last holds rounds

/-- A swap, and the loop from the first item on. -/
theorem SortEnds.swap
    (holds : Represents list (front ++ first :: second :: rest))
    (isWrong : wrong first.2 second.2) {swapped : CommonList Data}
    (isSwapped : list.swap first.1 second.1 = some swapped)
    (holds' : Represents swapped (front ++ second :: first :: rest))
    (ends : SortEnds wrong swapped [] (front ++ second :: first :: rest)) :
    SortEnds wrong list front (first :: second :: rest) := by
  obtain ⟨list', nodes', sorted, enough, returns⟩ := ends
  have swap :
      Swap (WrongNodes wrong) (front ++ first :: second :: rest)
        (front ++ second :: first :: rest) :=
    ⟨front, first, second, rest, rfl, rfl, isWrong⟩
  refine
    ⟨list', nodes', ⟨sorted.holds, .head swap sorted.swaps, sorted.chain⟩,
      enough + 1, ?_⟩
  intro test tests rounds more
  cases rounds with
  | zero => exact absurd more (Nat.not_succ_le_zero _)
  | succ rounds =>
      have fails : test list first.2 second.2 = some true := by
        rw [tests list _ holds (.refl _), decide_eq_true isWrong]
      rw [headAddress_cons, sortFrom_swap holds fails isSwapped, holds'.first]
      refine
        returns test (fun other nodes otherHolds perm => ?_) rounds
          (Nat.le_of_succ_le_succ more)
      exact tests other nodes otherHolds (perm.trans swap.perm)

/-- The loop from the next item on. -/
theorem SortEnds.pass
    (holds : Represents list (front ++ first :: second :: rest))
    (isRight : ¬ wrong first.2 second.2)
    (ends : SortEnds wrong list (front ++ [first]) (second :: rest)) :
    SortEnds wrong list front (first :: second :: rest) := by
  rw [SortEnds, ← List.append_cons] at ends
  obtain ⟨list', nodes', sorted, enough, returns⟩ := ends
  refine ⟨list', nodes', sorted, enough + 1, ?_⟩
  intro test tests rounds more
  cases rounds with
  | zero => exact absurd more (Nat.not_succ_le_zero _)
  | succ rounds =>
      have passes : test list first.2 second.2 = some false := by
        rw [tests list _ holds (.refl _), decide_eq_false isRight]
      rw [headAddress_cons, sortFrom_pass holds passes]
      exact returns test tests rounds (Nat.le_of_succ_le_succ more)

end Steps

/--
From an item before which all neighbours are in the right order, the loop ends
with a list without neighbours in the wrong order.
-/
theorem sortEnds {wrong : Data → Data → Prop} [DecidableRel wrong]
    (asymm : ∀ first second, wrong first second → ¬ wrong second first)
    {list : CommonList Data} {front rest : List (Nat × Data)}
    (holds : Represents list (front ++ rest))
    (right :
      (front ++ rest.take 1).IsChain fun first second =>
        ¬ WrongNodes wrong first second) :
    SortEnds wrong list front rest := by
  -- the outer induction is on the inversions, the inner one on the items ahead
  induction isNumber : inversions (WrongNodes wrong) (front ++ rest)
    using Nat.strong_induction_on generalizing list front rest with
  | _ number fewer =>
  induction rest generalizing front with
  | nil => exact .of_chain holds (Nat.zero_le _) right
  | cons first behind ahead =>
      cases behind with
      | nil => exact .of_chain holds le_rfl right
      | cons second rest =>
          by_cases isWrong : wrong first.2 second.2
          · obtain ⟨swapped, isSwapped, holds'⟩ := holds.swap
            have one : WrongNodes wrong first second := isWrong
            have less :
                inversions (WrongNodes wrong)
                  (front ++ second :: first :: rest) < number := by
              have taken := inversions_swap one (asymm _ _ isWrong) front rest
              omega
            exact
              .swap holds isWrong isSwapped holds'
                (fewer _ less holds' (isChain_take_one _ _) rfl)
          · have further :
                front ++ first :: second :: rest =
                  front ++ [first] ++ second :: rest :=
              List.append_cons front first (second :: rest)
            have longer :
                (front ++ [first] ++ (second :: rest).take 1).IsChain
                  fun first second => ¬ WrongNodes wrong first second := by
              rw [List.append_assoc]
              exact List.isChain_append_cons_cons.mpr
                ⟨right, isWrong, .singleton second⟩
            refine .pass holds isWrong (ahead ?_ longer ?_)
            · exact further ▸ holds
            · exact further ▸ isNumber

/-- The loop from the first item on. -/
theorem sortEnds_first {wrong : Data → Data → Prop} [DecidableRel wrong]
    (asymm : ∀ first second, wrong first second → ¬ wrong second first)
    {list : CommonList Data} {nodes : List (Nat × Data)}
    (holds : Represents list nodes) :
    ∃ list' nodes', Sorted wrong list' nodes nodes' ∧
      ∃ enough, ∀ test, Tests wrong nodes test →
        ∀ rounds, enough ≤ rounds →
          list.sortFrom test rounds list.first = some list' := by
  rw [holds.first]
  exact @sortEnds _ wrong _ asymm list [] nodes holds (isChain_take_one _ _)

end YiimpStratum.Lists
