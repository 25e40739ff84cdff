import Mathlib.Data.List.TakeWhile

/-!
# Marks in a text

The parts of a text before its first mark, from its first mark on, and through
its last mark, for texts over any alphabet.  Each part is described for texts
that are put together from pieces of which it is known whether the mark occurs
in them.
-/

namespace YiimpStratum.Delimited

universe level

variable {Letter : Type level} [DecidableEq Letter]

/-- The part before the first mark. -/
def before (mark : Letter) (text : List Letter) : List Letter :=
  text.takeWhile fun letter => letter != mark

/-- The part from the first mark on, empty when there is none. -/
def onward (mark : Letter) (text : List Letter) : List Letter :=
  text.dropWhile fun letter => letter != mark

/-- The part through the last mark, empty when there is none. -/
def throughLast (mark : Letter) (text : List Letter) : List Letter :=
  (onward mark text.reverse).reverse

variable {mark : Letter}

theorem before_append_onward (mark : Letter) (text : List Letter) :
    before mark text ++ onward mark text = text :=
  List.takeWhile_append_dropWhile

theorem not_mem_before (mark : Letter) (text : List Letter) :
    mark ∉ before mark text := by
  intro member
  have other := List.mem_takeWhile_imp member
  rw [bne_self_eq_false] at other
  exact Bool.noConfusion other

/-- A piece without the mark is passed over. -/
theorem onward_append {left : List Letter} (absent : mark ∉ left)
    (right : List Letter) :
    onward mark (left ++ right) = onward mark right := by
  refine List.dropWhile_append_of_pos fun letter member => ?_
  rw [bne_iff_ne]
  exact fun same => absent (same ▸ member)

theorem onward_cons_self (mark : Letter) (rest : List Letter) :
    onward mark (mark :: rest) = mark :: rest := by
  rw [onward, List.dropWhile_cons, bne_self_eq_false, if_neg Bool.false_ne_true]

theorem before_append {left : List Letter} (absent : mark ∉ left)
    (right : List Letter) :
    before mark (left ++ right) = left ++ before mark right := by
  refine List.takeWhile_append_of_pos fun letter member => ?_
  rw [bne_iff_ne]
  exact fun same => absent (same ▸ member)

theorem before_cons_self (mark : Letter) (rest : List Letter) :
    before mark (mark :: rest) = [] := by
  rw [before, List.takeWhile_cons, bne_self_eq_false, if_neg Bool.false_ne_true]

theorem before_of_not_mem {text : List Letter} (absent : mark ∉ text) :
    before mark text = text := by
  have whole := before_append absent []
  rw [List.append_nil] at whole
  exact whole.trans (List.append_nil text)

theorem onward_of_not_mem {text : List Letter} (absent : mark ∉ text) :
    onward mark text = [] := by
  have whole := onward_append absent []
  rw [List.append_nil] at whole
  exact whole

/-- A text with the mark is its first part, the mark and a rest. -/
theorem eq_before_append_cons {text : List Letter} (member : mark ∈ text) :
    ∃ rest, onward mark text = mark :: rest ∧
      text = before mark text ++ mark :: rest := by
  obtain ⟨left, right, rfl, absent⟩ := List.eq_append_cons_of_mem member
  refine ⟨right, ?_, ?_⟩
  · rw [onward_append absent, onward_cons_self]
  · rw [before_append absent, before_cons_self, List.append_nil]

/-- A piece with the mark decides where the parts divide. -/
theorem onward_append_of_mem {left : List Letter} (member : mark ∈ left)
    (right : List Letter) :
    onward mark (left ++ right) = onward mark left ++ right := by
  obtain ⟨rest, found, split⟩ := eq_before_append_cons member
  have whole : left ++ right = before mark left ++ mark :: (rest ++ right) := by
    rw [← List.cons_append, ← List.append_assoc, ← split]
  rw [found, whole, onward_append (not_mem_before mark left),
    onward_cons_self, List.cons_append]

theorem before_append_of_mem {left : List Letter} (member : mark ∈ left)
    (right : List Letter) : before mark (left ++ right) = before mark left := by
  obtain ⟨rest, -, split⟩ := eq_before_append_cons member
  have whole : left ++ right = before mark left ++ mark :: (rest ++ right) := by
    rw [← List.cons_append, ← List.append_assoc, ← split]
  rw [whole, before_append (not_mem_before mark left), before_cons_self,
    List.append_nil]

/-- Nothing after the last mark is taken. -/
theorem throughLast_append {right : List Letter} (absent : mark ∉ right)
    (left : List Letter) :
    throughLast mark (left ++ mark :: right) = left ++ [mark] := by
  have turned : (left ++ mark :: right).reverse =
      right.reverse ++ mark :: left.reverse := by
    rw [List.reverse_append, List.reverse_cons, List.append_assoc,
      List.singleton_append]
  rw [throughLast, turned, onward_append (by rwa [List.mem_reverse]),
    onward_cons_self, List.reverse_cons, List.reverse_reverse]

theorem length_throughLast_le (mark : Letter) (text : List Letter) :
    (throughLast mark text).length ≤ text.length := by
  rw [throughLast, List.length_reverse]
  exact (List.dropWhile_sublist _).length_le.trans List.length_reverse.le

end YiimpStratum.Delimited
