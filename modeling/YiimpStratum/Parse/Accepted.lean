import YiimpStratum.Parse.Fill
import YiimpStratum.Parse.ReadBack
import YiimpStratum.Parse.Safe

/-!
# What the parser returns

On every text the parser ends without a fault.  It returns `NULL` exactly for
the texts that denote no value, and for every other text the memory from which
its value is read back.
-/

namespace YiimpStratum.Parse

open YiimpStratum
open YiimpStratum.Util
open YiimpStratum.Rounds

variable {doubles : Doubles} {json : List Char}

/-- Arithmetic for texts without a double. -/
def noDoubles : Doubles where
  ofInteger := fun _ => Double.zero
  add := fun _ _ => Double.zero
  mul := fun _ _ => Double.zero
  div := fun _ _ => Double.zero
  pow := fun _ _ => Double.zero
  neg := id

/-- The first pass ends, and what it accepts is the text of a value. -/
theorem firstPass_ends (doubles : Doubles) (i : List Char) :
    ∃ ending,
      Returns (fun rounds => pass doubles true rounds (State.initial []) i)
        ending ∧
        ending ≠ .fault ∧
          ∀ s, ending = .ended s → WantsValue doubles [] i :=
  pass_ends (.value .root (fun _ => by simp) _) i

/-- Nothing but the first pass is needed to reject a text. -/
theorem jsonParse_of_failed {s : State}
    (returns :
      Returns
        (fun rounds =>
          pass doubles true rounds (State.initial []) (skipMark json))
        (.failed s)) :
    Returns (jsonParse doubles json) .null := by
  obtain ⟨enough, all⟩ := returns
  refine ⟨enough, fun rounds more => ?_⟩
  simp only [jsonParse, all rounds more]
  rfl

theorem jsonParse_of_over {s s' : State}
    (first :
      Returns
        (fun rounds =>
          pass doubles true rounds (State.initial []) (skipMark json))
        (.ended s))
    (second :
      Returns
        (fun rounds =>
          pass doubles false rounds (State.initial s.values) (skipMark json))
        (.ended s')) :
    Returns (jsonParse doubles json) (.values s'.values) := by
  obtain ⟨enough, all⟩ := first
  obtain ⟨enough', all'⟩ := second
  refine ⟨max enough enough', fun rounds more => ?_⟩
  simp only [jsonParse, all rounds (by omega), all' rounds (by omega),
    Option.bind_eq_bind, Option.bind_some]

/-- There is no mark in front of an ASCII character. -/
theorem skipMark_cons {c : Char} (unmarked : c.toNat ≠ 0xEF)
    (json : List Char) : skipMark (c :: json) = c :: json := by
  unfold skipMark
  split
  · rename_i b₁ b₂ b₃ rest shape
    have first : c = b₁ := (List.cons.inj shape).1
    rw [if_neg fun mark => unmarked (first ▸ mark.1), shape]
  · rfl

theorem length_skipMark_le (json : List Char) :
    (skipMark json).length ≤ json.length := by
  unfold skipMark
  split
  · split
    · simp only [List.length_cons]
      omega
    · exact Nat.le_refl _
  · exact Nat.le_refl _

/-- The text of a value is parsed to the memory filled from it. -/
theorem jsonParse_of_denotes {value : Json}
    (fits : 24 * json.length < 2 ^ 31) (denotes : Denotes doubles json value) :
    Returns (jsonParse doubles json) (.values (filled none 0 value)) := by
  obtain ⟨rest, derives, trailing⟩ := denotes
  have shorter := length_skipMark_le json
  have fits' : 24 * (skipMark json).length < 2 ^ 31 := by omega
  obtain ⟨z, first⟩ :=
    firstPass_returns derives trailing (short_of_fits fits')
  obtain ⟨z', second⟩ := secondPass_returns derives trailing fits'
  exact jsonParse_of_over first second

theorem jsonParse_ends (doubles : Doubles) {json : List Char}
    (fits : 24 * json.length < 2 ^ 31) :
    Returns (jsonParse doubles json) .null ∨
      ∃ value, Denotes doubles json value ∧
        Returns (jsonParse doubles json) (.values (filled none 0 value)) := by
  obtain ⟨ending, returns, noFault, ends⟩ :=
    firstPass_ends doubles (skipMark json)
  cases ending with
  | ended s =>
      obtain ⟨value, rest, derives, trailing⟩ := ends s rfl
      have denotes : Denotes doubles json value := ⟨rest, derives, trailing⟩
      exact Or.inr ⟨value, denotes, jsonParse_of_denotes fits denotes⟩
  | failed s => exact Or.inl (jsonParse_of_failed returns)
  | fault => exact absurd rfl noFault

/-- The value in the memory of a text is the one that the text denotes. -/
theorem readValue_root (value : Json) {levels : Nat}
    (deep : size value ≤ levels) :
    readValue (filled none 0 value) levels 0 = some value := by
  have read := readValue_filled value [] [] none deep
  rwa [List.nil_append, List.append_nil] at read

/-- A text has one value at most. -/
theorem Denotes.unique {value value' : Json}
    (fits : 24 * json.length < 2 ^ 31) (denotes : Denotes doubles json value)
    (denotes' : Denotes doubles json value') : value = value' := by
  have same :=
    (jsonParse_of_denotes fits denotes).unique
      (jsonParse_of_denotes fits denotes')
  have memory : filled none 0 value = filled none 0 value' := by
    injection same
  have read := readValue_root value (Nat.le_max_left _ (size value'))
  have read' := readValue_root value' (Nat.le_max_right (size value) _)
  rw [memory] at read
  exact Option.some.inj (read.symm.trans read')

/-- The parser ends on every text, and never with a fault. -/
theorem jsonParse_safe (doubles : Doubles) {json : List Char}
    (fits : 24 * json.length < 2 ^ 31) :
    ∃ result, Returns (jsonParse doubles json) result ∧ result ≠ .fault := by
  rcases jsonParse_ends doubles fits with null | ⟨value, _, returns⟩
  · exact ⟨_, null, by simp⟩
  · exact ⟨_, returns, by simp⟩

theorem jsonParse_safe_unclosed :
    ∃ result, Returns (jsonParse noDoubles ['[', '1']) result ∧
      result ≠ .fault :=
  jsonParse_safe noDoubles (by decide)

/-- The values that are returned are those of a text, and read back as it. -/
theorem jsonParse_values_iff (fits : 24 * json.length < 2 ^ 31)
    (value : Json) :
    (∃ values, Returns (jsonParse doubles json) (.values values) ∧
      ∀ levels, size value ≤ levels →
        readValue values levels 0 = some value) ↔
      Denotes doubles json value := by
  constructor
  · rintro ⟨values, returns, read⟩
    rcases jsonParse_ends doubles fits with null | ⟨other, denotes, filled⟩
    · exact absurd (null.unique returns) (by simp)
    · have memory := filled.unique returns
      injection memory with memory
      have read' := readValue_root other (Nat.le_max_right (size value) _)
      rw [memory, read _ (Nat.le_max_left _ (size other))] at read'
      obtain rfl := Option.some.inj read'
      exact denotes
  · intro denotes
    exact ⟨_, jsonParse_of_denotes fits denotes, fun _ => readValue_root value⟩

theorem jsonParse_values_iff_array :
    (∃ values,
      Returns (jsonParse noDoubles ['[', '1', ',', ']']) (.values values) ∧
        ∀ levels, size (.array [.integer 1]) ≤ levels →
          readValue values levels 0 = some (.array [.integer 1])) ↔
      Denotes noDoubles ['[', '1', ',', ']'] (.array [.integer 1]) :=
  @jsonParse_values_iff noDoubles ['[', '1', ',', ']'] (by decide) _

/-- Exactly the texts of no value are rejected. -/
theorem jsonParse_null_iff (fits : 24 * json.length < 2 ^ 31) :
    Returns (jsonParse doubles json) .null ↔
      ∀ value, ¬ Denotes doubles json value := by
  constructor
  · intro null value denotes
    exact absurd (null.unique (jsonParse_of_denotes fits denotes)) (by simp)
  · intro meaningless
    rcases jsonParse_ends doubles fits with null | ⟨value, denotes, _⟩
    · exact null
    · exact absurd denotes (meaningless value)

theorem jsonParse_null_iff_unclosed :
    Returns (jsonParse noDoubles ['[', '1']) .null ↔
      ∀ value, ¬ Denotes noDoubles ['[', '1'] value :=
  @jsonParse_null_iff noDoubles ['[', '1'] (by decide)

end YiimpStratum.Parse
