import Mathlib.Data.List.Infix
import YiimpStratum.Util.Hex

/-!
# Searching and reading strings

The functions of the C library that the login, the statistics and the answers
of the daemon use on strings.

`strstr` finds nothing exactly when the string does not occur, and passes over
what stands in front of the first occurrence.
-/

namespace YiimpStratum.Util

/-- `strstr`: the string from the first occurrence on. -/
def strstr (needle : CString) : CString → Option CString
  | [] => if needle = [] then some [] else none
  | c :: rest =>
      if needle.isPrefixOf (c :: rest) then some (c :: rest)
      else strstr needle rest

/-- `isdigit` -/
def isdigit (c : Char) : Bool :=
  '0' ≤ c && c ≤ '9'

/-- The letters of `isalpha`. -/
def isalpha (c : Char) : Bool :=
  ('a' ≤ c && c ≤ 'z') || ('A' ≤ c && c ≤ 'Z')

/-- The value of the decimal digits at the start. -/
def decimal (text : CString) : Nat :=
  (text.takeWhile isdigit).foldl
    (fun value c => 10 * value + (c.toNat - '0'.toNat)) 0

/-- `atoi`, for a number that fits. -/
def atoi (text : CString) : Int :=
  match text.dropWhile Char.isWhitespace with
  | '-' :: digits => - (decimal digits : Int)
  | '+' :: digits => decimal digits
  | digits => decimal digits

/-! ## The first occurrence -/

theorem strstr_here {needle rest : CString} {c : Char}
    (here : needle <+: c :: rest) : strstr needle (c :: rest) = c :: rest := by
  rw [strstr, if_pos (List.isPrefixOf_iff_prefix.mpr here)]

theorem strstr_elsewhere {needle rest : CString} {c : Char}
    (later : ¬ needle <+: c :: rest) :
    strstr needle (c :: rest) = strstr needle rest := by
  rw [strstr, if_neg (mt List.isPrefixOf_iff_prefix.mp later)]

theorem strstr_eq_none_iff (needle text : CString) :
    strstr needle text = none ↔ ¬ needle <:+: text := by
  induction text with
  | nil =>
      rw [strstr, List.infix_nil]
      split
      · rename_i empty
        simp [empty]
      · rename_i more
        simp [more]
  | cons c text ih =>
      rw [List.infix_cons_iff]
      by_cases here : needle <+: c :: text
      · simp [strstr_here here, here]
      · rw [strstr_elsewhere here, ih]
        simp [here]

/-- No occurrence begins in front of one that is behind the last character. -/
theorem strstr_append {needle : CString} (front rest : CString)
    (absent : ¬ needle <:+: front ++ needle.dropLast) (nonempty : needle ≠ []) :
    strstr needle (front ++ (needle ++ rest)) = some (needle ++ rest) := by
  induction front with
  | nil =>
      rw [List.nil_append]
      cases needle with
      | nil => exact absurd rfl nonempty
      | cons c needle =>
          rw [List.cons_append]
          exact strstr_here (List.prefix_append (c :: needle) rest)
  | cons c front ih =>
      have here : ¬ needle <+: c :: (front ++ (needle ++ rest)) := by
        intro occurs
        have pos := List.length_pos_iff.mpr nonempty
        have start :
            c :: (front ++ needle.dropLast) <+:
              c :: (front ++ (needle ++ rest)) := by
          rw [List.cons_prefix_cons]
          refine ⟨rfl, (List.prefix_append_right_inj front).mpr ?_⟩
          exact needle.dropLast_prefix.trans (List.prefix_append needle rest)
        have inside : needle <+: c :: (front ++ needle.dropLast) := by
          refine List.prefix_of_prefix_length_le occurs start ?_
          simp only [List.length_cons, List.length_append,
            List.length_dropLast]
          omega
        exact absent inside.isInfix
      have later : ¬ needle <:+: front ++ needle.dropLast := by
        intro occurs
        exact absent (List.infix_cons occurs)
      rw [List.cons_append, strstr_elsewhere here, ih later]

end YiimpStratum.Util
