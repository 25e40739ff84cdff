import Mathlib.Data.List.Chain
import Mathlib.Data.List.Perm.Basic
import Mathlib.Data.List.Sort
import Mathlib.Logic.Relation

/-!
# Sorting by swaps of neighbours

Two neighbours are swapped when a relation says that they are in the wrong
order.  Every swap takes away one inversion, a pair of elements in the wrong
order, so that only finitely many follow one another.  A list without a wrong
pair of neighbours is sorted when the relation is that of a total preorder.
-/

namespace YiimpStratum.AdjacentSwaps

universe level

variable {Item : Type level}

section Swaps

variable (wrong : Item → Item → Prop)

/-- Two neighbours in the wrong order are swapped. -/
def Swap (items items' : List Item) : Prop :=
  ∃ front first second rest,
    items = front ++ first :: second :: rest ∧
      items' = front ++ second :: first :: rest ∧ wrong first second

/-- The number of pairs in the wrong order. -/
def inversions [DecidableRel wrong] : List Item → Nat
  | [] => 0
  | first :: rest =>
      rest.countP (fun item => wrong first item) + inversions rest

end Swaps

variable {wrong : Item → Item → Prop}

theorem Swap.perm {items items' : List Item} (swap : Swap wrong items items') :
    items'.Perm items := by
  obtain ⟨front, first, second, rest, rfl, rfl, -⟩ := swap
  exact (List.Perm.swap first second rest).append_left front

/-- A property that a swap keeps is kept by all of them. -/
theorem invariant_of_swaps (invariant : List Item → Prop)
    (preserved :
      ∀ items items', Swap wrong items items' → invariant items →
        invariant items')
    {items items' : List Item}
    (swaps : Relation.ReflTransGen (Swap wrong) items items')
    (initial : invariant items) : invariant items' := by
  induction swaps with
  | refl => exact initial
  | tail _ swap ih => exact preserved _ _ swap ih

/-- Swaps permute the list. -/
theorem perm_of_swaps {items items' : List Item}
    (swaps : Relation.ReflTransGen (Swap wrong) items items') :
    items'.Perm items := by
  apply invariant_of_swaps (fun other => other.Perm items) _ swaps .rfl
  intro before after swap perm
  exact swap.perm.trans perm

/-- A swap takes away one inversion. -/
theorem inversions_swap [DecidableRel wrong] {first second : Item}
    (isWrong : wrong first second) (right : ¬ wrong second first)
    (front rest : List Item) :
    inversions wrong (front ++ second :: first :: rest) + 1 =
      inversions wrong (front ++ first :: second :: rest) := by
  induction front with
  | nil =>
      simp only [List.nil_append, inversions]
      rw [List.countP_cons_of_neg (by simpa using right),
        List.countP_cons_of_pos (by simpa using isWrong)]
      omega
  | cons item front ih =>
      have same :
          (front ++ second :: first :: rest).countP
              (fun other => wrong item other) =
            (front ++ first :: second :: rest).countP
              (fun other => wrong item other) :=
        ((List.Perm.swap first second rest).append_left front).countP_eq _
      simp only [List.cons_append, inversions]
      rw [same]
      omega

/-! ## Stable sorting -/

section Stable

variable (order : Item → Item → Prop) [DecidableRel order]

/-- Two elements that are not equivalent may be inserted in any order. -/
theorem orderedInsert_comm [IsTrans Item order] {first second : Item}
    (right : order second first) (isWrong : ¬ order first second)
    (items : List Item) :
    (items.orderedInsert order second).orderedInsert order first =
      (items.orderedInsert order first).orderedInsert order second := by
  induction items with
  | nil =>
      simp only [List.orderedInsert_nil, List.orderedInsert_cons, if_pos right,
        if_neg isWrong]
  | cons item items ih =>
      by_cases before : order first item
      · have both : order second item := Trans.trans right before
        simp only [List.orderedInsert_cons, if_pos before, if_pos both,
          if_pos right, if_neg isWrong]
      · by_cases other : order second item
        · simp only [List.orderedInsert_cons, if_neg before, if_pos other,
            if_neg isWrong]
        · simp only [List.orderedInsert_cons, if_neg before, if_neg other, ih]

theorem insertionSort_swap [IsTrans Item order] {first second : Item}
    (right : order second first) (isWrong : ¬ order first second)
    (front rest : List Item) :
    (front ++ second :: first :: rest).insertionSort order =
      (front ++ first :: second :: rest).insertionSort order := by
  induction front with
  | nil => exact (orderedInsert_comm order right isWrong _).symm
  | cons item front ih => exact congrArg (List.orderedInsert order item) ih

/-- Swaps of neighbours do not change what the list is sorted into. -/
theorem insertionSort_of_swaps [IsTrans Item order]
    (total : ∀ first second, ¬ order first second → order second first)
    {items items' : List Item}
    (swaps :
      Relation.ReflTransGen (Swap fun first second => ¬ order first second)
        items items') :
    items'.insertionSort order = items.insertionSort order := by
  apply
    invariant_of_swaps
      (fun other => other.insertionSort order = items.insertionSort order)
      _ swaps rfl
  intro before after swap same
  rw [← same]
  obtain ⟨front, first, second, rest, rfl, rfl, isWrong⟩ := swap
  exact insertionSort_swap order (total _ _ isWrong) isWrong front rest

/-- A sorted list that swaps lead to is the one insertion sort gives. -/
theorem eq_insertionSort_of_swaps [IsTrans Item order]
    (total : ∀ first second, ¬ order first second → order second first)
    {items items' : List Item}
    (swaps :
      Relation.ReflTransGen (Swap fun first second => ¬ order first second)
        items items')
    (sorted : items'.Pairwise order) : items' = items.insertionSort order := by
  rw [← insertionSort_of_swaps order total swaps]
  exact sorted.insertionSort_eq.symm

end Stable

/-! ## Elements that are not compared -/

section Barriers

universe keyLevel

variable {Key : Type keyLevel} [LinearOrder Key]
variable (live : Item → Bool) (key : Item → Key)

/-- Only live elements are compared; the larger keys are to come first. -/
def WrongKeys (first second : Item) : Prop :=
  live first = true ∧ live second = true ∧ key first < key second

/-- Live elements on two sides of another one are in the right order. -/
def Apart (items : List Item) : Prop :=
  ∀ front barrier rest, items = front ++ barrier :: rest →
    live barrier = false →
      ∀ first ∈ front, ∀ second ∈ rest, live first = true →
        live second = true → key second ≤ key first

variable {live key}

/-- A swap takes place on one side of every element that is not compared. -/
theorem apart_of_swapped {front rest : List Item} {first second : Item}
    (firstLive : live first = true) (secondLive : live second = true)
    (apart : Apart live key (front ++ first :: second :: rest)) :
    Apart live key (front ++ second :: first :: rest) := by
  intro before barrier behind split isBarrier left inLeft right inRight
  have notFirst : barrier ≠ first := by
    rintro rfl
    exact Bool.false_ne_true (isBarrier.symm.trans firstLive)
  have notSecond : barrier ≠ second := by
    rintro rfl
    exact Bool.false_ne_true (isBarrier.symm.trans secondLive)
  rcases List.append_eq_append_iff.mp split with
    ⟨between, rfl, isRest⟩ | ⟨between, rfl, isRest⟩
  · match between, isRest with
    | [], isRest => exact absurd (List.cons.inj isRest).1.symm notSecond
    | [_], isRest =>
        have tails := (List.cons.inj isRest).2
        exact absurd (List.cons.inj tails).1.symm notFirst
    | _ :: _ :: between, isRest =>
        obtain ⟨rfl, tails⟩ := List.cons.inj isRest
        obtain ⟨rfl, rfl⟩ := List.cons.inj tails
        refine
          apart (front ++ first :: second :: between) barrier behind ?_
            isBarrier left ?_ right inRight
        · rw [List.append_assoc]
          rfl
        · have perm :=
            (List.Perm.swap first second between).append_left front
          exact perm.mem_iff.mp inLeft
  · match between, isRest with
    | [], isRest => exact absurd (List.cons.inj isRest).1 notSecond
    | _ :: between, isRest =>
        obtain ⟨rfl, rfl⟩ := List.cons.inj isRest
        refine
          apart before barrier (between ++ first :: second :: rest) ?_
            isBarrier left inLeft right ?_
        · rw [List.append_assoc]
          rfl
        · have perm :=
            (List.Perm.swap first second rest).append_left between
          exact perm.mem_iff.mp inRight

theorem apart_iff_of_swaps {items items' : List Item}
    (swaps :
      Relation.ReflTransGen (Swap (WrongKeys live key)) items items') :
    Apart live key items' ↔ Apart live key items := by
  apply
    invariant_of_swaps
      (fun other => Apart live key other ↔ Apart live key items) _ swaps
      Iff.rfl
  intro before after swap same
  rw [← same]
  obtain ⟨front, first, second, rest, rfl, rfl, one, other, -⟩ := swap
  exact ⟨apart_of_swapped other one, apart_of_swapped one other⟩

/-- The live elements are sorted when they are in order around the others. -/
theorem pairwise_of_apart {items : List Item}
    (chain :
      items.IsChain fun first second => ¬ WrongKeys live key first second)
    (apart : Apart live key items) :
    (items.filter live).Pairwise fun first second =>
      key second ≤ key first := by
  induction items with
  | nil => exact .nil
  | cons first rest ih =>
      have apartRest : Apart live key rest :=
        fun front barrier behind split isBarrier left inLeft =>
          apart (first :: front) barrier behind (congrArg _ split) isBarrier
            left (List.mem_cons_of_mem _ inLeft)
      have sorted := ih chain.tail apartRest
      by_cases firstLive : live first = true
      · rw [List.filter_cons_of_pos firstLive, List.pairwise_cons]
        refine ⟨fun other member => ?_, sorted⟩
        obtain ⟨inRest, otherLive⟩ := List.mem_filter.mp member
        cases rest with
        | nil => exact nomatch inRest
        | cons second behind =>
            by_cases secondLive : live second = true
            · have ordered : key second ≤ key first :=
                le_of_not_gt fun less =>
                  (List.isChain_cons_cons.mp chain).1
                    ⟨firstLive, secondLive, less⟩
              rw [List.filter_cons_of_pos secondLive] at member sorted
              rcases List.mem_cons.mp member with rfl | later
              · exact ordered
              · exact
                  ((List.pairwise_cons.mp sorted).1 other later).trans ordered
            · -- everything live behind is on the other side of `second`
              rcases List.mem_cons.mp inRest with rfl | later
              · exact absurd otherLive secondLive
              · exact
                  apart [first] second behind rfl
                    (eq_false_of_ne_true secondLive) first
                    List.mem_cons_self other later firstLive otherLive
      · rw [List.filter_cons_of_neg firstLive]
        exact sorted

theorem apart_of_pairwise {items : List Item}
    (sorted :
      (items.filter live).Pairwise fun first second =>
        key second ≤ key first) :
    Apart live key items := by
  rintro front barrier rest rfl isBarrier first inFront second inRest
    firstLive secondLive
  rw [List.filter_append,
    List.filter_cons_of_neg (ne_true_of_eq_false isBarrier),
    List.pairwise_append] at sorted
  exact
    sorted.2.2 first (List.mem_filter.mpr ⟨inFront, firstLive⟩) second
      (List.mem_filter.mpr ⟨inRest, secondLive⟩)

/-- What swaps lead to is sorted exactly when the list was in order around the
elements that are not compared. -/
theorem pairwise_iff_apart {items items' : List Item}
    (swaps : Relation.ReflTransGen (Swap (WrongKeys live key)) items items')
    (chain :
      items'.IsChain fun first second => ¬ WrongKeys live key first second) :
    ((items'.filter live).Pairwise fun first second =>
        key second ≤ key first) ↔
      Apart live key items := by
  rw [← apart_iff_of_swaps swaps]
  exact ⟨apart_of_pairwise, pairwise_of_apart chain⟩

end Barriers

end YiimpStratum.AdjacentSwaps
