import Mathlib.Data.List.Basic
import YiimpStratum.Util.Hex

/-!
# Texts in words

`ser_string_be` swaps the bytes inside of each word of eight characters, and
`ser_string_be2` the words of a text.  Both after another reverse the bytes of
the text, and the first undoes itself.
-/

namespace YiimpStratum.Util

/-! ## Words -/

/-- Words of eight characters. -/
def AreWords (words : List CString) : Prop :=
  ∀ word ∈ words, word.length = 8

/-- The first word of a text, and the rest. -/
theorem exists_word_append {count : Nat} {text : CString}
    (length : text.length = (count + 1) * 8) :
    ∃ word rest : CString, word.length = 8 ∧ rest.length = count * 8 ∧
      text = word ++ rest := by
  refine ⟨text.take 8, text.drop 8, ?_, ?_, ?_⟩
  · rw [List.length_take]
    omega
  · rw [List.length_drop]
    omega
  · rw [List.take_append_drop]

/-- A text of the right length is made of words. -/
theorem exists_words {count : Nat} {text : CString}
    (length : text.length = count * 8) :
    ∃ words : List CString, words.length = count ∧ AreWords words ∧
      text = words.flatten := by
  induction count generalizing text with
  | zero =>
      rw [Nat.zero_mul, List.length_eq_zero_iff] at length
      exact ⟨[], rfl, fun _ member => absurd member List.not_mem_nil, length⟩
  | succ count ih =>
      obtain ⟨word, rest, eight, others, rfl⟩ := exists_word_append length
      obtain ⟨words, counted, each, rfl⟩ := ih others
      refine ⟨word :: words, ?_, ?_, ?_⟩
      · rw [List.length_cons, counted]
      · exact List.forall_mem_cons.mpr ⟨eight, each⟩
      · rw [List.flatten_cons]

/-- The word behind the first one. -/
theorem drop_word {word : CString} (eight : word.length = 8)
    (rest : CString) (i : Nat) :
    (word ++ rest).drop ((i + 1) * 8) = rest.drop (i * 8) := by
  have offset : (i + 1) * 8 = word.length + i * 8 := by
    rw [eight]
    omega
  rw [offset, ← List.drop_drop, List.drop_left]

theorem take_word {word : CString} (eight : word.length = 8)
    (rest : CString) : (word ++ rest).take 8 = word := by
  rw [← eight, List.take_left]

/-! ## The two swaps -/

theorem serStringBe_succ {word : CString} (eight : word.length = 8)
    (rest : CString) (len : Nat) :
    serStringBe (word ++ rest) (len + 1) =
      stringBe word ++ serStringBe rest len := by
  rw [serStringBe, List.range_succ_eq_map, List.flatMap_cons, Nat.zero_mul,
    List.drop_zero, take_word eight, List.flatMap_map, serStringBe]
  congr 1
  refine List.flatMap_congr fun i _ => ?_
  rw [drop_word eight]

theorem serStringBe2_succ {word : CString} (eight : word.length = 8)
    (rest : CString) (len : Nat) :
    serStringBe2 (word ++ rest) (len + 1) =
      serStringBe2 rest len ++ word := by
  have last : len + 1 - len - 1 = 0 := by omega
  rw [serStringBe2, List.range_succ, List.flatMap_append, List.flatMap_cons,
    List.flatMap_nil, List.append_nil, last, Nat.zero_mul, List.drop_zero,
    take_word eight, serStringBe2]
  congr 1
  refine List.flatMap_congr fun i member => ?_
  have below := List.mem_range.mp member
  have position : len + 1 - i - 1 = (len - i - 1) + 1 := by omega
  rw [position, drop_word eight]

theorem serStringBe_flatten {words : List CString} (each : AreWords words) :
    serStringBe words.flatten words.length =
      (words.map stringBe).flatten := by
  induction words with
  | nil => rfl
  | cons word words ih =>
      obtain ⟨eight, others⟩ := List.forall_mem_cons.mp each
      rw [List.flatten_cons, List.length_cons, serStringBe_succ eight,
        ih others, List.map_cons, List.flatten_cons]

theorem serStringBe2_flatten {words : List CString} (each : AreWords words) :
    serStringBe2 words.flatten words.length = words.reverse.flatten := by
  induction words with
  | nil => rfl
  | cons word words ih =>
      obtain ⟨eight, others⟩ := List.forall_mem_cons.mp each
      rw [List.flatten_cons, List.length_cons, serStringBe2_succ eight,
        ih others, List.reverse_cons, List.flatten_append,
        List.flatten_singleton]

theorem stringBe_flatten {words : List CString} (each : AreWords words) :
    stringBe words.flatten = (words.reverse.map stringBe).flatten := by
  induction words with
  | nil => rfl
  | cons word words ih =>
      obtain ⟨eight, others⟩ := List.forall_mem_cons.mp each
      rw [List.flatten_cons, stringBe_append _ _ (by rw [eight]), ih others,
        List.reverse_cons, List.map_append, List.flatten_append,
        List.map_singleton, List.flatten_singleton]

/-! ## One swap after another -/

theorem length_serStringBe {count : Nat} {text : CString}
    (length : text.length = count * 8) :
    (serStringBe text count).length = count * 8 := by
  induction count generalizing text with
  | zero => rfl
  | succ count ih =>
      obtain ⟨word, rest, eight, others, rfl⟩ := exists_word_append length
      rw [serStringBe_succ eight, List.length_append, length_stringBe,
        eight, ih others]
      omega

theorem length_serStringBe2 {count : Nat} {text : CString}
    (length : text.length = count * 8) :
    (serStringBe2 text count).length = count * 8 := by
  induction count generalizing text with
  | zero => rfl
  | succ count ih =>
      obtain ⟨word, rest, eight, others, rfl⟩ := exists_word_append length
      rw [serStringBe2_succ eight, List.length_append, eight, ih others]
      omega

/-- A text is swapped piece by piece. -/
theorem serStringBe_append {count : Nat} {left : CString}
    (length : left.length = count * 8) (right : CString) (others : Nat) :
    serStringBe (left ++ right) (count + others) =
      serStringBe left count ++ serStringBe right others := by
  induction count generalizing left with
  | zero =>
      rw [Nat.zero_mul, List.length_eq_zero_iff] at length
      rw [length, Nat.zero_add]
      rfl
  | succ count ih =>
      obtain ⟨word, rest, eight, tail, rfl⟩ := exists_word_append length
      rw [List.append_assoc, Nat.add_right_comm, serStringBe_succ eight,
        serStringBe_succ eight, ih tail, List.append_assoc]

theorem serStringBe_nil (len : Nat) : serStringBe [] len = [] := by
  rw [serStringBe, List.flatMap_eq_nil_iff]
  intro i _
  rw [List.drop_nil, List.take_nil, stringBe]

/-- A single word has its bytes reversed. -/
theorem serStringBe_word {word : CString} (eight : word.length = 8) :
    serStringBe word 1 = stringBe word := by
  have swapped := serStringBe_succ eight [] 0
  rw [List.append_nil] at swapped
  rw [swapped, serStringBe_nil, List.append_nil]

theorem serStringBe_serStringBe {count : Nat} {text : CString}
    (length : text.length = count * 8) :
    serStringBe (serStringBe text count) count = text := by
  obtain ⟨words, rfl, each, rfl⟩ := exists_words length
  have swapped : AreWords (words.map stringBe) := by
    intro word member
    obtain ⟨original, isWord, rfl⟩ := List.mem_map.mp member
    rw [length_stringBe, each original isWord]
  have again := serStringBe_flatten swapped
  rw [List.length_map] at again
  rw [serStringBe_flatten each, again, List.map_map]
  have each_back :
      words.map (stringBe ∘ stringBe) = words.map id := by
    refine List.map_congr_left fun word member => ?_
    exact stringBe_stringBe word (by rw [each word member])
  rw [each_back, List.map_id]

theorem serStringBe_serStringBe2 {count : Nat} {text : CString}
    (length : text.length = count * 8) :
    serStringBe (serStringBe2 text count) count = stringBe text := by
  obtain ⟨words, rfl, each, rfl⟩ := exists_words length
  have reversed : AreWords words.reverse := fun word member =>
    each word (List.mem_reverse.mp member)
  have swapped := serStringBe_flatten reversed
  rw [List.length_reverse] at swapped
  rw [serStringBe2_flatten each, swapped, stringBe_flatten each]

end YiimpStratum.Util
