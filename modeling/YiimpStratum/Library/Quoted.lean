import Mathlib.Data.List.Basic

/-!
# Bodies of quoted text

A text between quotes in which some characters are written as a pair, the
escape character and a second one.  A body is well formed when it has no quote
outside a pair and does not end inside one.

Escaping a text gives a well formed body.  What is left of the body after its
first characters are taken is well formed unless the cut goes through a pair,
and where that happens can be read off the text before escaping.
-/

namespace YiimpStratum.Quoted

variable {α : Type} [DecidableEq α]

/-- No quote outside a pair and no pair that is not complete. -/
def wellFormed (slash : α) (isQuote : α → Bool) : List α → Bool
  | [] => true
  | [c] => c != slash && ! isQuote c
  | c :: d :: rest =>
      if c = slash then wellFormed slash isQuote rest
      else ! isQuote c && wellFormed slash isQuote (d :: rest)

/-- The pair of one character, or the character itself. -/
def escapeOne (slash : α) (pair : α → Option α) (c : α) : List α :=
  match pair c with
  | some d => [slash, d]
  | none => [c]

def escape (slash : α) (pair : α → Option α) (text : List α) : List α :=
  text.flatMap (escapeOne slash pair)

/-- The number of characters of the text that get a pair. -/
def pairs (pair : α → Option α) (text : List α) : Nat :=
  text.countP fun c => (pair c).isSome

/-- The body of the text after `count` characters would end inside a pair. -/
def CutsPair (pair : α → Option α) (text : List α) (count : Nat) : Prop :=
  ∃ first c rest, text = first ++ c :: rest ∧ (pair c).isSome ∧
    first.length + pairs pair first + 1 = count

section Lemmas

variable {slash : α} {isQuote : α → Bool} {pair : α → Option α}

omit [DecidableEq α] in
theorem not_cutsPair_nil (count : Nat) : ¬ CutsPair pair [] count := by
  rintro ⟨first, c, rest, split, -, -⟩
  exact absurd split.symm (List.append_ne_nil_of_right_ne_nil first
    (List.cons_ne_nil c rest))

omit [DecidableEq α] in
theorem not_cutsPair_zero (text : List α) : ¬ CutsPair pair text 0 := by
  rintro ⟨first, c, rest, -, -, place⟩
  exact absurd place (Nat.succ_ne_zero _)

omit [DecidableEq α] in
/-- After a character without a pair, the cut is one place earlier. -/
theorem cutsPair_cons_plain {c : α} (plain : pair c = none) (text : List α)
    (count : Nat) :
    CutsPair pair (c :: text) (count + 1) ↔ CutsPair pair text count := by
  constructor
  · rintro ⟨first, d, rest, split, special, place⟩
    cases first with
    | nil =>
        rw [List.nil_append, List.cons.injEq] at split
        rw [← split.1, plain] at special
        exact absurd special Bool.false_ne_true
    | cons head first =>
        rw [List.cons_append, List.cons.injEq] at split
        refine ⟨first, d, rest, split.2, special, ?_⟩
        rw [← split.1, List.length_cons, pairs, List.countP_cons, plain]
          at place
        rw [pairs]
        simp only [Option.isSome_none, Bool.false_eq_true, if_false] at place
        omega
  · rintro ⟨first, d, rest, split, special, place⟩
    refine ⟨c :: first, d, rest, ?_, special, ?_⟩
    · rw [split, List.cons_append]
    · rw [pairs] at place
      rw [List.length_cons, pairs, List.countP_cons, plain]
      simp only [Option.isSome_none, Bool.false_eq_true, if_false]
      omega

omit [DecidableEq α] in
/-- After a character with a pair, the cut is two places earlier. -/
theorem cutsPair_cons_paired {c d : α} (paired : pair c = some d)
    (text : List α) (count : Nat) :
    CutsPair pair (c :: text) (count + 2) ↔ CutsPair pair text count := by
  constructor
  · rintro ⟨first, e, rest, split, special, place⟩
    cases first with
    | nil =>
        rw [List.length_nil, pairs, List.countP_nil] at place
        omega
    | cons head first =>
        rw [List.cons_append, List.cons.injEq] at split
        refine ⟨first, e, rest, split.2, special, ?_⟩
        rw [← split.1, List.length_cons, pairs, List.countP_cons, paired]
          at place
        rw [pairs]
        simp only [Option.isSome_some, if_true] at place
        omega
  · rintro ⟨first, e, rest, split, special, place⟩
    refine ⟨c :: first, e, rest, ?_, special, ?_⟩
    · rw [split, List.cons_append]
    · rw [pairs] at place
      rw [List.length_cons, pairs, List.countP_cons, paired]
      simp only [Option.isSome_some, if_true]
      omega

omit [DecidableEq α] in
theorem cutsPair_cons_one {c d : α} (paired : pair c = some d)
    (text : List α) : CutsPair pair (c :: text) 1 :=
  ⟨[], c, text, rfl, by rw [paired]; rfl, rfl⟩

theorem wellFormed_cons_plain {c : α} (other : c ≠ slash)
    (unquoted : isQuote c = false) (rest : List α) :
    wellFormed slash isQuote (c :: rest) = wellFormed slash isQuote rest := by
  cases rest with
  | nil =>
      rw [wellFormed, wellFormed, unquoted, bne_iff_ne.mpr other]
      rfl
  | cons d rest =>
      rw [wellFormed, if_neg other, unquoted, Bool.not_false, Bool.true_and]

theorem wellFormed_pair (d : α) (rest : List α) :
    wellFormed slash isQuote (slash :: d :: rest) =
      wellFormed slash isQuote rest := by
  rw [wellFormed, if_pos rfl]

theorem wellFormed_slash : wellFormed slash isQuote [slash] = false := by
  rw [wellFormed, bne_self_eq_false, Bool.false_and]

/-- A text without quotes and escape characters is well formed. -/
theorem wellFormed_of_plain {text : List α}
    (plain : ∀ c ∈ text, c ≠ slash ∧ isQuote c = false) :
    wellFormed slash isQuote text = true := by
  induction text with
  | nil =>
      rfl
  | cons c text ih =>
      obtain ⟨head, rest⟩ := List.forall_mem_cons.mp plain
      rw [wellFormed_cons_plain head.1 head.2]
      exact ih rest

/-- A cut body is well formed exactly when the cut goes through no pair. -/
theorem wellFormed_take_escape_iff
    (covers : ∀ c, pair c = none → c ≠ slash ∧ isQuote c = false)
    (text : List α) (count : Nat) :
    wellFormed slash isQuote ((escape slash pair text).take count) = true ↔
      ¬ CutsPair pair text count := by
  induction text generalizing count with
  | nil =>
      rw [escape, List.flatMap_nil, List.take_nil, wellFormed]
      exact ⟨fun _ => not_cutsPair_nil count, fun _ => rfl⟩
  | cons c text ih =>
      rw [escape, List.flatMap_cons, escapeOne, ← escape]
      cases paired : pair c with
      | none =>
          cases count with
          | zero =>
              rw [List.take_zero, wellFormed]
              exact ⟨fun _ => not_cutsPair_zero _, fun _ => rfl⟩
          | succ count =>
              obtain ⟨other, unquoted⟩ := covers c paired
              rw [List.singleton_append, List.take_succ_cons,
                wellFormed_cons_plain other unquoted, ih count,
                cutsPair_cons_plain paired]
      | some d =>
          match count with
          | 0 =>
              rw [List.take_zero, wellFormed]
              exact ⟨fun _ => not_cutsPair_zero _, fun _ => rfl⟩
          | 1 =>
              rw [List.cons_append, List.take_succ_cons, List.take_zero,
                wellFormed_slash]
              exact ⟨fun bad => absurd bad Bool.false_ne_true,
                fun whole => absurd (cutsPair_cons_one paired text) whole⟩
          | count + 2 =>
              rw [List.cons_append, List.singleton_append,
                List.take_succ_cons, List.take_succ_cons, wellFormed_pair,
                ih count, cutsPair_cons_paired paired]

end Lemmas

end YiimpStratum.Quoted
