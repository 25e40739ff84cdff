import YiimpStratum.Stats.Store

/-!
# Which statistics are stored safely

A field is a well formed body exactly when no line end takes the last place of
its array.  The query is well formed when it is not sent or all its fields fit.
-/

namespace YiimpStratum.Stats

open YiimpStratum
open YiimpStratum.Util
open YiimpStratum.Db

/-! ## What cleaning keeps -/

theorem cutHtml_eq {string : CString} (short : string.length < 512) :
    cutHtml string = string.takeWhile (! isHtml ·) := by
  rw [cutHtml, Nat.mod_eq_of_lt short, List.take_length]
  cases found : string.findIdx? isHtml with
  | some index =>
      rw [takeWhile_of_findIdx?_some found]
  | none =>
      rw [takeWhile_of_findIdx?_none found]

theorem mem_cleanHtml {string : CString} (short : string.length < 512)
    {c : Char} (member : c ∈ cleanHtml string) :
    c ∈ string ∧ isHtml c = false := by
  rw [cleanHtml] at member
  split at member
  · exact absurd member List.not_mem_nil
  · rw [cutHtml_eq short] at member
    exact ⟨List.takeWhile_subset _ member, not_stops_of_mem_takeWhile member⟩

/-- Among the characters that are kept only line ends become a pair. -/
theorem isSpecial_eq_isLineEnd {c : Char} (visible : c ≠ terminator)
    (plain : isHtml c = false) : isSpecial c = isLineEnd c := by
  have slash : c ≠ backslash := by
    rintro rfl
    exact absurd plain (by decide)
  have single : c ≠ Char.ofNat 39 := by
    rintro rfl
    exact absurd plain (by decide)
  have double : c ≠ Char.ofNat 34 := by
    rintro rfl
    exact absurd plain (by decide)
  have quote : isQuote c = false := by
    have listed : "'\"".toList = [Char.ofNat 39, Char.ofNat 34] := by decide
    rw [isQuote, listed, List.contains_cons, List.contains_cons,
      List.contains_nil, beq_eq_false_iff_ne.mpr single,
      beq_eq_false_iff_ne.mpr double]
    rfl
  rw [isSpecial, isLineEnd, quote, beq_eq_false_iff_ne.mpr visible,
    beq_eq_false_iff_ne.mpr slash, Bool.false_or, Bool.or_false,
    Bool.or_false]

theorem mem_cleaned {maxlen : Nat} {text : CString} {c : Char}
    (member : c ∈ cleaned maxlen text) : c ∈ text ∧ isHtml c = false := by
  have short : ((text.take 126).take (maxlen - 1)).length < 512 := by
    rw [List.length_take, List.length_take]
    omega
  obtain ⟨kept, plain⟩ := mem_cleanHtml short member
  exact ⟨List.mem_of_mem_take (List.mem_of_mem_take kept), plain⟩

/-! ## One field -/

theorem covers (mysql : MysqlEscape) (c : Char) (single : mysql.pair c = none) :
    c ≠ backslash ∧ isQuote c = false := by
  have ordinary := mysql.isSome_pair c
  rw [single, Option.isSome_none, isSpecial] at ordinary
  have parts := Bool.or_eq_false_iff.mp
    (Bool.or_eq_false_iff.mp ordinary.symm).1
  exact ⟨beq_eq_false_iff_ne.mp (Bool.or_eq_false_iff.mp parts.1).2, parts.2⟩

theorem pairs_eq_countP (mysql : MysqlEscape) {text : CString}
    (kept : ∀ c ∈ text, isSpecial c = isLineEnd c) :
    Quoted.pairs mysql.pair text = text.countP isLineEnd := by
  rw [Quoted.pairs]
  refine List.countP_congr fun c member => ?_
  rw [mysql.isSome_pair, kept c member]

/-- The cut goes through no pair exactly when the text fits the array. -/
theorem not_cutsPair_iff (mysql : MysqlEscape) {maxlen : Nat}
    (room : 2 ≤ maxlen) {text : CString}
    (visible : ∀ c ∈ text, c ≠ terminator) :
    ¬ Quoted.CutsPair mysql.pair (cleaned maxlen text) (maxlen - 1) ↔
      FitsArray maxlen text := by
  have kept : ∀ c ∈ cleaned maxlen text, isSpecial c = isLineEnd c := by
    intro c member
    obtain ⟨inside, plain⟩ := mem_cleaned member
    exact isSpecial_eq_isLineEnd (visible c inside) plain
  have counted : ∀ first c rest, cleaned maxlen text = first ++ c :: rest →
      Quoted.pairs mysql.pair first = first.countP isLineEnd := by
    intro first c rest split
    refine pairs_eq_countP mysql fun d member => kept d ?_
    rw [split]
    exact List.mem_append_left _ member
  constructor
  · intro whole first c rest split lineEnd place
    refine whole ⟨first, c, rest, split, ?_, ?_⟩
    · rw [mysql.isSome_pair, kept c (by
        rw [split]
        exact List.mem_append_right _ List.mem_cons_self)]
      exact lineEnd
    · rw [counted first c rest split]
      omega
  · rintro fits ⟨first, c, rest, split, special, place⟩
    rw [counted first c rest split] at place
    rw [mysql.isSome_pair, kept c (by
      rw [split]
      exact List.mem_append_right _ List.mem_cons_self)] at special
    exact fits first c rest split special (by omega)

theorem visible_of_stringValue {json : Json} {text : CString}
    (read : json.stringValue = some text) : ∀ c ∈ text, c ≠ terminator := by
  cases json with
  | string stored =>
      intro c member
      rw [← Option.some.inj read] at member
      exact ne_terminator_of_mem_textOf member
  | object _ => exact absurd read (by simp [Json.stringValue])
  | array _ => exact absurd read (by simp [Json.stringValue])
  | integer _ => exact absurd read (by simp [Json.stringValue])
  | double _ => exact absurd read (by simp [Json.stringValue])
  | boolean _ => exact absurd read (by simp [Json.stringValue])
  | null => exact absurd read (by simp [Json.stringValue])

/-- A field is a well formed body exactly when it fits. -/
theorem wellFormedBody_field_iff (mysql : MysqlEscape) (stats : Json)
    {field : Field} (room : 2 ≤ field.maxlen) :
    WellFormedBody (jsonStrSafe mysql stats field.key field.maxlen) ↔
      FieldFits stats field := by
  rw [jsonStrSafe, FieldFits]
  cases read : (stats.getVal field.key).bind Json.stringValue with
  | none =>
      refine ⟨fun _ text found => ?_, fun _ => rfl⟩
      exact absurd found (Option.some_ne_none text).symm
  | some text =>
      obtain ⟨json, -, value⟩ := Option.bind_eq_some_iff.mp read
      have cut : WellFormedBody
          ((mysql.apply (cleaned field.maxlen text)).take
            (field.maxlen - 1)) ↔
          FitsArray field.maxlen text :=
        (Quoted.wellFormed_take_escape_iff (covers mysql) _ _).trans
          (not_cutsPair_iff mysql room (visible_of_stringValue value))
      refine cut.trans ⟨fun fits other found => ?_, fun fits => fits text rfl⟩
      rw [← Option.some.inj found]
      exact fits

/-! ## The query -/

theorem wellFormedBody_algo (algo : AlgoName) : WellFormedBody algo.text := by
  refine Quoted.wellFormed_of_plain fun c member => ?_
  have plain := algo.plain c member
  constructor
  · rintro rfl
    exact absurd plain (by decide)
  · by_contra quoted
    rw [Bool.not_eq_false, isQuote, List.contains_iff_mem] at quoted
    have listed : "'\"".toList = [Char.ofNat 39, Char.ofNat 34] := by decide
    rw [listed] at quoted
    rcases List.mem_pair.mp quoted with rfl | rfl
    · exact absurd plain (by decide)
    · exact absurd plain (by decide)

theorem two_le_maxlen : ∀ field ∈ fields, 2 ≤ field.maxlen := by
  decide

theorem fieldArgument_mem (mysql : MysqlEscape) (around : Surroundings)
    (stats : Json) {field : Field} (listed : field ∈ fields) :
    fieldArgument mysql stats field ∈
      (insertBenchmark mysql around stats).arguments := by
  rw [insertBenchmark, List.mem_append, List.mem_append]
  exact Or.inl (Or.inr (List.mem_map_of_mem listed))

theorem wellFormed_insertBenchmark_iff (mysql : MysqlEscape)
    (around : Surroundings) (stats : Json) :
    WellFormedQuery (insertBenchmark mysql around stats) ↔
      ∀ field ∈ fields, FieldFits stats field := by
  constructor
  · intro wellFormed field listed
    exact (wellFormedBody_field_iff mysql stats
      (two_le_maxlen field listed)).mp
        (wellFormed _ (fieldArgument_mem mysql around stats listed))
  · intro fits argument member
    rw [insertBenchmark, List.mem_append, List.mem_append] at member
    rcases member with (leading | stored) | numbers
    · rcases List.mem_pair.mp leading with rfl | rfl
      · exact trivial
      · exact wellFormedBody_algo around.algo
    · obtain ⟨field, listed, rfl⟩ := List.mem_map.mp stored
      exact (wellFormedBody_field_iff mysql stats
        (two_le_maxlen field listed)).mpr (fits field listed)
    · simp only [List.mem_cons, List.not_mem_nil, or_false] at numbers
      rcases numbers with rfl | rfl | rfl | rfl | rfl | rfl | rfl | rfl | rfl |
        rfl
      all_goals exact trivial

theorem clientStoreStats_of_accepted {mysql : MysqlEscape}
    {around : Surroundings} {result : Json}
    (accepted : Accepted mysql around result) :
    clientStoreStats mysql around result =
      some (insertBenchmark mysql around result) := by
  obtain ⟨typed, sameAlgo, positive⟩ := accepted
  cases result with
  | object members =>
      obtain ⟨text, read⟩ := Option.ne_none_iff_exists'.mp typed
      rw [clientStoreStats, read, dbStoreStats, sameAlgo, positive]
      rfl
  | array _ => exact absurd rfl typed
  | integer _ => exact absurd rfl typed
  | double _ => exact absurd rfl typed
  | string _ => exact absurd rfl typed
  | boolean _ => exact absurd rfl typed
  | null => exact absurd rfl typed

theorem clientStoreStats_of_not_accepted {mysql : MysqlEscape}
    {around : Surroundings} {result : Json}
    (refused : ¬ Accepted mysql around result) :
    clientStoreStats mysql around result = none := by
  cases result with
  | object members =>
      rw [clientStoreStats]
      cases read : ((Json.object members).getVal "type".toList).bind
          Json.stringValue with
      | none =>
          rfl
      | some text =>
          dsimp only
          rw [dbStoreStats]
          split
          · rfl
          · rename_i sameAlgo
            split
            · rfl
            · rename_i positive
              refine absurd ⟨?_, ?_, ?_⟩ refused
              · rw [read]
                exact Option.some_ne_none text
              · exact Bool.eq_false_iff.mpr sameAlgo
              · exact Bool.eq_false_iff.mpr positive
  | array _ => rfl
  | integer _ => rfl
  | double _ => rfl
  | string _ => rfl
  | boolean _ => rfl
  | null => rfl

/--
A reply is stored with well formed strings exactly when it is turned away or
in none of its fields a line end takes the last place of the array.
-/
theorem storesWellFormed_iff (mysql : MysqlEscape) (around : Surroundings)
    (result : Json) :
    StoresWellFormed mysql around result ↔
      (Accepted mysql around result →
        ∀ field ∈ fields, FieldFits result field) := by
  rw [StoresWellFormed]
  constructor
  · intro wellFormed accepted
    rw [← wellFormed_insertBenchmark_iff mysql around]
    exact wellFormed _ (clientStoreStats_of_accepted accepted)
  · intro fits query sent
    by_cases accepted : Accepted mysql around result
    · rw [clientStoreStats_of_accepted accepted] at sent
      rw [← Option.some.inj sent, wellFormed_insertBenchmark_iff]
      exact fits accepted
    · rw [clientStoreStats_of_not_accepted accepted] at sent
      exact absurd sent (by simp)

/-! ## A failing reply -/

/-- The second characters that MySQL writes. -/
def mysqlPair (c : Char) : Option Char :=
  if c == terminator then some '0'
  else if c == Char.ofNat 10 then some 'n'
  else if c == Char.ofNat 13 then some 'r'
  else if c == Char.ofNat 26 then some 'Z'
  else if c == backslash || isQuote c then some c
  else none

theorem isSome_mysqlPair (c : Char) :
    (mysqlPair c).isSome = isSpecial c := by
  rw [mysqlPair, isSpecial]
  cases (c == terminator) <;> cases (c == Char.ofNat 10) <;>
    cases (c == Char.ofNat 13) <;> cases (c == Char.ofNat 26) <;>
    cases (c == backslash) <;> cases isQuote c <;> rfl

/-- A trusted client of a server for `equihash`. -/
def equihashServer : Surroundings where
  algo :=
    { text := "equihash".toList
      plain := List.all_eq_true.mp (by decide) }
  submitBad := 0
  userid := 1
  time := 0

/-- A reply whose type has seven characters, the last one a line end. -/
def lineEndReply : Json :=
  .object [("type".toList, .string ("card-1".toList ++ [Char.ofNat 10]))]

theorem not_storesWellFormed_lineEnd :
    ¬ StoresWellFormed { pair := mysqlPair, isSome_pair := isSome_mysqlPair }
      equihashServer lineEndReply := by
  intro wellFormed
  have accepted : Accepted
      { pair := mysqlPair, isSome_pair := isSome_mysqlPair }
      equihashServer lineEndReply :=
    ⟨by decide, by decide, by decide⟩
  have sent := clientStoreStats_of_accepted accepted
  have body : WellFormedBody (jsonStrSafe _ lineEndReply typeField.key
      typeField.maxlen) :=
    wellFormed _ sent _ (fieldArgument_mem _ _ _ List.mem_cons_self)
  exact absurd body (by decide)

end YiimpStratum.Stats
