import YiimpStratum.Assign.Passes
import YiimpStratum.Lists.Sort

/-!
# Jobs in the order of their profits

`job_sort` on the items of `g_list_job`.  What it leaves is the list that a
stable sort gives, which is how the assignment of the clients has it.
-/

namespace YiimpStratum.Lists

open YiimpStratum
open YiimpStratum.AdjacentSwaps
open YiimpStratum.DoublyLinked
open YiimpStratum.Rounds

variable {Data : Type}

/-- `job_sort`; the data of an item lead to the profit of its job. -/
def jobSort (profit : Data → Rat) (list : CommonList Data) (rounds : Nat) :
    Option (CommonList Data) :=
  list.sortFrom
    (fun _ job1 job2 => some (decide (profit job1 < profit job2))) rounds
    list.first

/-- What the loop leaves, and that it ends. -/
theorem jobSort_returns (profit : Data → Rat) {list : CommonList Data}
    {nodes : List (Nat × Data)} (holds : Represents list nodes) :
    ∃ list' nodes',
      Sorted (fun job1 job2 => profit job1 < profit job2) list' nodes nodes' ∧
        Returns (jobSort profit list) list' := by
  have asymm :
      ∀ job1 job2, profit job1 < profit job2 → ¬ profit job2 < profit job1 :=
    fun _ _ => lt_asymm
  obtain ⟨list', nodes', sorted, enough, returns⟩ :=
    sortEnds_first asymm holds
  exact
    ⟨list', nodes', sorted, enough,
      returns _ fun _ _ _ _ _ _ => rfl⟩

/-- Neighbours in order are a list in order. -/
theorem pairwise_of_chain {profit : Data → Rat} {data : List Data}
    (chain :
      data.IsChain fun job1 job2 => ¬ profit job1 < profit job2) :
    data.Pairwise fun job1 job2 => profit job2 ≤ profit job1 := by
  have trans :
      IsTrans Data fun job1 job2 => profit job2 ≤ profit job1 :=
    ⟨fun _ _ _ first second => second.trans first⟩
  exact List.isChain_iff_pairwise.mp (chain.imp fun _ _ => le_of_not_gt)

/--
`job_sort` ends, and leaves the same items in the order of decreasing profits,
linked in both directions.
-/
theorem jobSort_sorts (profit : Data → Rat) {list : CommonList Data}
    {nodes : List (Nat × Data)} (holds : Represents list nodes) :
    ∃ list' nodes', Returns (jobSort profit list) list' ∧
      Represents list' nodes' ∧ nodes'.Perm nodes ∧
        (nodes'.map Prod.snd).Pairwise fun job1 job2 =>
          profit job2 ≤ profit job1 := by
  obtain ⟨list', nodes', sorted, returns⟩ := jobSort_returns profit holds
  exact
    ⟨list', nodes', returns, sorted.holds, perm_of_swaps sorted.swaps,
      pairwise_of_chain sorted.data_chain⟩

/-- The items of two jobs, the less profitable one first. -/
def twoJobs : CommonList Rat where
  count := 2
  first := 1
  last := 2
  items := fun item =>
    if item = 1 then some ⟨10, 0, 2⟩
    else if item = 2 then some ⟨20, 1, 0⟩
    else none

theorem represents_twoJobs : Represents twoJobs [(1, 10), (2, 20)] where
  linked := ⟨by decide, rfl, by decide, rfl, trivial⟩
  first := rfl
  last := rfl
  count := rfl

theorem jobSort_twoJobs :
    ∃ list' nodes', Returns (jobSort id twoJobs) list' ∧
      Represents list' nodes' ∧ nodes'.Perm [(1, 10), (2, 20)] ∧
        (nodes'.map Prod.snd).Pairwise fun job1 job2 => job2 ≤ job1 :=
  jobSort_sorts id represents_twoJobs

open Assign in
/-- The jobs are in the order in which they are assigned to the clients. -/
theorem jobSort_eq_assign {list : CommonList ListedJob}
    {nodes : List (Nat × ListedJob)} (holds : Represents list nodes) :
    ∃ list' nodes', Returns (jobSort ListedJob.profit list) list' ∧
      Represents list' nodes' ∧
        nodes'.map Prod.snd = Assign.jobSort (nodes.map Prod.snd) := by
  obtain ⟨list', nodes', sorted, returns⟩ :=
    jobSort_returns ListedJob.profit holds
  refine ⟨list', nodes', returns, sorted.holds, ?_⟩
  have trans :
      IsTrans ListedJob fun first second => second.profit ≤ first.profit :=
    ⟨fun _ _ _ first second => second.trans first⟩
  have isWrong :
      (fun job1 job2 : ListedJob => job1.profit < job2.profit) =
        fun job1 job2 => ¬ job2.profit ≤ job1.profit := by
    funext job1 job2
    exact propext not_le.symm
  have swaps := sorted.data_swaps
  rw [isWrong] at swaps
  exact
    eq_insertionSort_of_swaps _ (fun _ _ => le_of_not_ge) swaps
      (pairwise_of_chain sorted.data_chain)

end YiimpStratum.Lists
