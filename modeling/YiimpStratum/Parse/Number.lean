import YiimpStratum.Parse.Moves

/-!
# Numbers in the first pass

The first pass reads a number digit by digit and ends it at the first
character that does not belong to it.  The digits count up an integer of 64
bits; the number that they stand for is reduced to these.
-/

namespace YiimpStratum.Parse

open YiimpStratum
open YiimpStratum.Util

/-! ## Digits -/

theorem toInt64_step (number digit : Int) :
    toInt64 (toInt64 number * 10 + digit) = toInt64 (number * 10 + digit) := by
  simp only [toInt64, BitVec.toInt_ofInt]
  rw [← Int.bmod_add_bmod, Int.bmod_mul_bmod, Int.bmod_add_bmod]

/-- The value of a digit. -/
def digitValue (b : Char) : Int :=
  b.toNat - '0'.toNat

/-- An integer of 64 bits counted up by digits. -/
def accumulate (start : Int) (digits : List Char) : Int :=
  digits.foldl (fun value b => toInt64 (value * 10 + digitValue b)) start

theorem digitValue_eq {b : Char} (isDigit : b.isDigit = true) :
    digitValue b = ((b.toNat - '0'.toNat : Nat) : Int) := by
  have low : '0'.toNat ≤ b.toNat := by
    simp only [Char.isDigit, Bool.and_eq_true, decide_eq_true_eq, ge_iff_le,
      UInt32.le_iff_toNat_le] at isDigit
    exact isDigit.1
  rw [digitValue, Int.ofNat_sub low]

theorem accumulate_decimal {digits : List Char} (isDigits : IsDigits digits) :
    accumulate 0 digits = toInt64 (decimal digits) := by
  suffices general : ∀ number : Nat,
      accumulate (toInt64 number) digits =
        toInt64
          ((digits.foldl
            (fun number c => number * 10 + (c.toNat - '0'.toNat)) number :
            Nat) : Int) from
    general 0
  induction digits with
  | nil => exact fun _ => rfl
  | cons b digits ih =>
      intro number
      have first := isDigits b List.mem_cons_self
      have later := ih fun c member =>
        isDigits c (List.mem_cons_of_mem b member)
      rw [List.foldl_cons, ← later, accumulate, List.foldl_cons, toInt64_step,
        digitValue_eq first]
      push_cast
      rfl

/-! ## Iterations inside a number -/

/-- A number that is being read, the last value allocated. -/
abbrev numbered (before : List JsonValue) (parent : Option Nat)
    (data : JsonData) (scratch : Scratch) : State :=
  complete (before ++ [⟨parent, data⟩]) before.length 0 scratch

/-- The values whose characters are digits, signs and marks. -/
def JsonData.isNumber : JsonData → Bool
  | .integer _ => true
  | .double _ => true
  | _ => false

section Iterations

variable {doubles : Doubles}
variable {before : List JsonValue} {parent : Option Nat} {data : JsonData}
variable {z : Scratch}

theorem step_numbered (isNumber : data.isNumber = true) (i : List Char) :
    step doubles true (numbered before parent data z) i =
      readNumber doubles true (numbered before parent data z) data
        (i.headD terminator) i := by
  rw [step, numbered, topValue_outside]
  cases data with
  | integer value => rfl
  | double value => rfl
  | _ => exact absurd isNumber (by simp [JsonData.isNumber])

theorem step_digit {b : Char} (isDigit : b.isDigit = true) {z' : Scratch}
    {data' : JsonData} (isNumber : data.isNumber = true)
    (read : readDigit b z data = some (z', data')) (i : List Char) :
    step doubles true (numbered before parent data z) (b :: i) =
      .next (numbered before parent data' z') i := by
  rw [step_numbered isNumber, readNumber]
  simp only [List.headD_cons, isDigit, if_true]
  simp only [show (numbered before parent data z).scratch = z from rfl, read]
  exact congrArg (proceed · (b :: i))
    (setTop_outside before parent data [] 0 z' false false false data')

/-- The digits in front of the point, behind the first one. -/
theorem leads_whole {digits : List Char} (isDigits : IsDigits digits)
    (value : Int) (noE : z.numE = false) (noZero : z.numZero = false)
    (started : 0 < z.numDigits) {i : List Char} {outcome : Iteration}
    (later :
      Leads doubles true
        (numbered before parent (.integer (accumulate value digits))
          { z with numDigits := z.numDigits + digits.length }) i outcome) :
    Leads doubles true (numbered before parent (.integer value) z)
      (digits ++ i) outcome := by
  induction digits generalizing value z with
  | nil => exact later
  | cons b digits ih =>
      have isDigit := isDigits b List.mem_cons_self
      have notFirst : (z.numDigits + 1 == 1) = false := by
        rw [beq_eq_false_iff_ne]
        omega
      have read :
          readDigit b z (.integer value) =
            some ({ z with numDigits := z.numDigits + 1 },
              .integer (toInt64 (value * 10 + digitValue b))) := by
        simp [readDigit, noE, noZero, notFirst, digitValue]
      refine .more (step_digit isDigit rfl read _)
        (ih (fun c member => isDigits c (List.mem_cons_of_mem b member)) _ noE
          noZero (Nat.succ_pos _) ?_)
      simpa [accumulate, Nat.add_assoc, Nat.add_comm 1] using later

/-- The digits behind the point. -/
theorem leads_fraction {digits : List Char} (isDigits : IsDigits digits)
    (dbl : Double) (noE : z.numE = false) {i : List Char}
    {outcome : Iteration}
    (later :
      Leads doubles true
        (numbered before parent (.double dbl)
          { z with
            numDigits := z.numDigits + digits.length
            numFraction := accumulate z.numFraction digits }) i outcome) :
    Leads doubles true (numbered before parent (.double dbl) z) (digits ++ i)
      outcome := by
  induction digits generalizing z with
  | nil => exact later
  | cons b digits ih =>
      have isDigit := isDigits b List.mem_cons_self
      have read :
          readDigit b z (.double dbl) =
            some
              ({ z with
                  numDigits := z.numDigits + 1
                  numFraction :=
                    toInt64 (z.numFraction * 10 + digitValue b) },
                .double dbl) := by
        simp [readDigit, noE, digitValue]
      refine .more (step_digit isDigit rfl read _)
        (ih (fun c member => isDigits c (List.mem_cons_of_mem b member)) noE
          ?_)
      simpa [accumulate, Nat.add_assoc, Nat.add_comm 1] using later

/-- The digits of the exponent. -/
theorem leads_exponent {digits : List Char} (isDigits : IsDigits digits)
    (dbl : Double) (afterE : z.numE = true) {i : List Char}
    {outcome : Iteration}
    (later :
      Leads doubles true
        (numbered before parent (.double dbl)
          { z with
            numEGotSign := z.numEGotSign || !digits.isEmpty
            numDigits := z.numDigits + digits.length
            exponent := accumulate z.exponent digits }) i outcome) :
    Leads doubles true (numbered before parent (.double dbl) z) (digits ++ i)
      outcome := by
  induction digits generalizing z with
  | nil => simpa [accumulate] using later
  | cons b digits ih =>
      have isDigit := isDigits b List.mem_cons_self
      have read :
          readDigit b z (.double dbl) =
            some
              ({ z with
                  numEGotSign := true
                  numDigits := z.numDigits + 1
                  exponent := toInt64 (z.exponent * 10 + digitValue b) },
                .double dbl) := by
        simp [readDigit, afterE, digitValue]
      refine .more (step_digit isDigit rfl read _)
        (ih (fun c member => isDigits c (List.mem_cons_of_mem b member))
          afterE ?_)
      simpa [accumulate, Nat.add_assoc, Nat.add_comm 1] using later

end Iterations

/-! ## The end of a number -/

/-- No character that belongs to a number follows. -/
def Delimited (i : List Char) : Prop :=
  isNumeric (i.headD terminator) = false

section Ends

variable {doubles : Doubles}
variable {before : List JsonValue} {parent : Option Nat} {data : JsonData}
variable {z : Scratch} {i : List Char}

theorem setTop_numbered (other : JsonData) :
    (numbered before parent data z).setTop other =
      numbered before parent other z :=
  setTop_outside before parent data [] 0 z false false false other

theorem isNumeric_of_isDigit {b : Char} (isDigit : b.isDigit = true) :
    isNumeric b = true := by
  simp [isNumeric, isDigit]

theorem not_numeric {b : Char} (plain : isNumeric b = false) :
    b.isDigit = false ∧ b ≠ '+' ∧ b ≠ '-' ∧ b ≠ 'e' ∧ b ≠ 'E' ∧ b ≠ '.' := by
  simp only [isNumeric, Bool.or_eq_false_iff, beq_eq_false_iff_ne] at plain
  obtain ⟨⟨⟨⟨⟨noDigit, noPlus⟩, noMinus⟩, noSmallE⟩, noLargeE⟩, noPoint⟩ :=
    plain
  exact ⟨noDigit, noPlus, noMinus, noSmallE, noLargeE, noPoint⟩

/-- An integer ends in front of what is no part of it. -/
theorem step_end_integer (delimited : Delimited i) (value : Int)
    (noE : z.numE = false) :
    step doubles true (numbered before parent (.integer value) z) i =
      finish true
        (numbered before parent
          (.integer (if z.numNegative then toInt64 (-value) else value)) z)
        i := by
  obtain ⟨noDigit, noPlus, noMinus, noSmallE, noLargeE, noPoint⟩ :=
    not_numeric delimited
  rw [step_numbered rfl]
  generalize i.headD terminator = b at *
  have scratch_eq :
      (numbered before parent (.integer value) z).scratch = z := rfl
  simp only [readNumber, scratch_eq, noDigit, noPlus, noMinus, noSmallE,
    noLargeE, noPoint, noE, addFraction, endNumber, setTop_numbered, negate,
    Bool.false_eq_true, false_and, or_self, if_false]
  split <;> rfl

/-- A double without an exponent ends behind the digits of its fraction. -/
theorem step_end_fraction (delimited : Delimited i) (dbl : Double)
    (noE : z.numE = false) (digits : 0 < z.numDigits) :
    step doubles true (numbered before parent (.double dbl) z) i =
      finish true
        (numbered before parent
          (.double
            (doubles.signed z.numNegative
              (doubles.add dbl
                (doubles.div (doubles.ofInteger z.numFraction)
                  (doubles.powerOfTen z.numDigits))))) z)
        i := by
  obtain ⟨noDigit, noPlus, noMinus, noSmallE, noLargeE, noPoint⟩ :=
    not_numeric delimited
  rw [step_numbered rfl]
  generalize i.headD terminator = b at *
  have scratch_eq :
      (numbered before parent (.double dbl) z).scratch = z := rfl
  simp only [readNumber, scratch_eq, noDigit, noPlus, noMinus, noSmallE,
    noLargeE, noPoint, noE, addFraction, endNumber, setTop_numbered, negate,
    Nat.ne_of_gt digits, Doubles.signed, Doubles.powerOfTen,
    Bool.false_eq_true, false_and, or_self, if_false]
  split <;> rfl

/-- A double with an exponent ends behind the digits of that. -/
theorem step_end_exponent (delimited : Delimited i) (dbl : Double)
    (afterE : z.numE = true) (digits : 0 < z.numDigits) :
    step doubles true (numbered before parent (.double dbl) z) i =
      finish true
        (numbered before parent
          (.double
            (doubles.signed z.numNegative
              (doubles.mul dbl
                (doubles.powerOfTen
                  (if z.numENegative then toInt64 (-z.exponent)
                  else z.exponent))))) z)
        i := by
  obtain ⟨noDigit, noPlus, noMinus, noSmallE, noLargeE, noPoint⟩ :=
    not_numeric delimited
  rw [step_numbered rfl]
  generalize i.headD terminator = b at *
  have scratch_eq :
      (numbered before parent (.double dbl) z).scratch = z := rfl
  simp only [readNumber, scratch_eq, noDigit, noPlus, noMinus, noPoint, afterE,
    endNumber, setTop_numbered, negate, scale, Nat.ne_of_gt digits,
    Doubles.signed, Doubles.powerOfTen, Bool.false_eq_true, false_and, or_self,
    if_false, if_true]
  split <;> rfl

/-! ## The marks of a number -/

theorem step_point (value : Int) (digits : 0 < z.numDigits) :
    step doubles true (numbered before parent (.integer value) z) ('.' :: i) =
      .next
        (numbered before parent (.double (doubles.ofInteger value))
          { z with numDigits := 0 }) i := by
  have scratch_eq :
      (numbered before parent (.integer value) z).scratch = z := rfl
  have noDigit : '.'.isDigit = false := by decide
  rw [step_numbered rfl]
  simp only [List.headD_cons, readNumber, scratch_eq, noDigit,
    Nat.ne_of_gt digits, JsonData.isInteger, Bool.false_eq_true, if_false]
  exact congrArg (proceed · ('.' :: i))
    (setTop_outside before parent (.integer value) [] 0
      { z with numDigits := 0 } false false false _)

/-- The scratch behind the mark of an exponent. -/
def Scratch.marked (z : Scratch) : Scratch :=
  { z with numE := true, numDigits := 0, numZero := false }

theorem step_mark {mark : Char} (isMark : mark = 'e' ∨ mark = 'E')
    (noE : z.numE = false) {data' : JsonData}
    (isNumber : data.isNumber = true)
    (added : addFraction doubles z data = some data') :
    step doubles true (numbered before parent data z) (mark :: i) =
      .next (numbered before parent (widen doubles data') z.marked) i := by
  have scratch_eq : (numbered before parent data z).scratch = z := rfl
  have noDigit : mark.isDigit = false := by
    rcases isMark with rfl | rfl <;> decide
  have noPoint : mark ≠ '.' := by
    rcases isMark with rfl | rfl <;> decide
  rw [step_numbered isNumber]
  simp only [List.headD_cons, readNumber, scratch_eq, noDigit, noPoint, noE,
    added, isMark, Bool.false_eq_true, false_and, and_false, if_false, if_true]
  exact congrArg (proceed · (mark :: i))
    (setTop_outside before parent data [] 0 z.marked false false false _)

theorem step_sign {sign : Char} (isSign : sign = '+' ∨ sign = '-')
    (afterE : z.numE = true) (noSign : z.numEGotSign = false)
    (dbl : Double) :
    step doubles true (numbered before parent (.double dbl) z) (sign :: i) =
      .next
        (numbered before parent (.double dbl)
          { z with
            numEGotSign := true
            numENegative := z.numENegative || sign == '-' }) i := by
  have scratch_eq : (numbered before parent (.double dbl) z).scratch = z := rfl
  have noDigit : sign.isDigit = false := by
    rcases isSign with rfl | rfl <;> decide
  rw [step_numbered rfl]
  simp only [List.headD_cons, readNumber, scratch_eq, noDigit, afterE, noSign,
    isSign, Bool.false_eq_true, if_false, if_true, not_false_eq_true, and_self]
  rfl

end Ends

/-! ## Whole numbers, fractions and exponents -/

section Parts

variable {doubles : Doubles}
variable {before : List JsonValue} {parent : Option Nat}
variable {z : Scratch} {i : List Char}

/-- The digits of an exponent with the end of the number. -/
theorem leads_last_digits (exponent : Exponent) (delimited : Delimited i)
    (dbl : Double) (afterE : z.numE = true) (fresh : z.numDigits = 0)
    (zero : z.exponent = 0) :
    ∃ z', Leads doubles true (numbered before parent (.double dbl) z)
      (exponent.digits ++ i)
      (finish true
        (numbered before parent
          (.double
            (doubles.signed z.numNegative
              (doubles.mul dbl
                (doubles.powerOfTen
                  (if z.numENegative then
                    toInt64 (-toInt64 (decimal exponent.digits))
                  else toInt64 (decimal exponent.digits)))))) z')
        i) := by
  have positive : 0 < z.numDigits + exponent.digits.length := by
    rw [fresh, Nat.zero_add]
    exact List.length_pos_iff.mpr exponent.digits_ne_nil
  rw [← accumulate_decimal exponent.isDigits, ← zero]
  exact ⟨_, leads_exponent exponent.isDigits dbl afterE
    (.last (step_end_exponent delimited dbl afterE positive))⟩

/-- An exponent with the end of the number. -/
theorem leads_scaled (exponent : Exponent) (delimited : Delimited i)
    {data data' : JsonData} {dbl : Double} (isNumber : data.isNumber = true)
    (added : addFraction doubles z data = some data')
    (widened : widen doubles data' = .double dbl)
    (noE : z.numE = false) (noSign : z.numEGotSign = false)
    (noMinus : z.numENegative = false) (zero : z.exponent = 0) :
    ∃ z', Leads doubles true (numbered before parent data z)
      (exponent.text ++ i)
      (finish true
        (numbered before parent
          (.double
            (doubles.signed z.numNegative
              (doubles.mul dbl (doubles.powerOfTen exponent.value)))) z')
        i) := by
  have mark : step doubles true (numbered before parent data z)
      (exponent.text ++ i) =
        .next (numbered before parent (.double dbl) z.marked)
          (exponent.sign.toList ++ exponent.digits ++ i) := by
    rw [← widened]
    exact step_mark exponent.mark_eq noE isNumber added
  rw [Exponent.value]
  cases signed : exponent.sign with
  | none =>
      rw [signed] at mark
      obtain ⟨z', leads⟩ :=
        @leads_last_digits doubles before parent z.marked i exponent delimited
          dbl rfl rfl zero
      refine ⟨z', .more mark ?_⟩
      rw [show z.marked.numENegative = false from noMinus] at leads
      exact leads
  | some sign =>
      rw [signed] at mark
      have signStep :=
        @step_sign doubles before parent z.marked (exponent.digits ++ i) sign
          (exponent.sign_eq sign signed) rfl noSign dbl
      obtain ⟨z', leads⟩ :=
        @leads_last_digits doubles before parent
          { z.marked with
            numEGotSign := true
            numENegative := z.marked.numENegative || sign == '-' }
          i exponent delimited dbl rfl rfl zero
      refine ⟨z', .more mark (.more signStep ?_)⟩
      simpa [Scratch.marked, noMinus] using leads

/-- The scratch in front of a number. -/
def Scratch.reset (z : Scratch) (negative : Bool) : Scratch :=
  { z with
    numNegative := negative
    numZero := false
    numE := false
    numEGotSign := false
    numENegative := false
    numDigits := 0
    exponent := 0
    numFraction := 0 }

theorem step_minus :
    step doubles true (outside before parent 0 true false false z)
        ('-' :: i) =
      .next (numbered before parent (.integer 0) (z.reset true)) i := by
  rw [step_begin_minus]
  rfl

/-- A digit that begins a number is looked at again. -/
theorem step_first_digit {b : Char} (isDigit : b.isDigit = true) :
    step doubles true (outside before parent 0 true false false z) (b :: i) =
      .next (numbered before parent (.integer 0) (z.reset false))
        (b :: i) := by
  have notMinus : b ≠ '-' := isDigit_ne isDigit (by decide)
  rw [step_begin_digit isDigit]
  simp [beginNumber, newValue, outside, notMinus, Scratch.reset]

/-- The digits in front of the point, behind the sign. -/
theorem leads_digits {whole : List Char} (isDigits : IsDigits whole)
    (alone : ∀ digits, whole = '0' :: digits → digits = [])
    (negative : Bool) :
    ∃ zero, ∀ outcome,
      Leads doubles true
        (numbered before parent (.integer (toInt64 (decimal whole)))
          { z.reset negative with
            numZero := zero, numDigits := whole.length }) i outcome →
      Leads doubles true
        (numbered before parent (.integer 0) (z.reset negative)) (whole ++ i)
        outcome := by
  rw [← accumulate_decimal isDigits]
  cases whole with
  | nil => exact ⟨false, fun _ later => later⟩
  | cons b digits =>
      have isDigit := isDigits b List.mem_cons_self
      have read :
          readDigit b (z.reset negative) (.integer 0) =
            some
              ({ z.reset negative with numZero := b == '0', numDigits := 1 },
                .integer (toInt64 (0 * 10 + digitValue b))) := by
        simp [readDigit, Scratch.reset, digitValue]
      refine ⟨b == '0', fun outcome later =>
        .more (step_digit isDigit rfl read _) ?_⟩
      by_cases zero : b = '0'
      · obtain rfl := alone digits (congrArg (· :: digits) zero)
        exact later
      · have nonzero : (b == '0') = false := beq_eq_false_iff_ne.mpr zero
        rw [nonzero] at later ⊢
        refine leads_whole (fun c member =>
          isDigits c (List.mem_cons_of_mem b member)) _ rfl rfl Nat.one_pos ?_
        simpa [accumulate, Nat.add_comm 1] using later

/-- What stands behind the digits in front of the point. -/
theorem leads_behind_digits (numeral : Numeral) (delimited : Delimited i)
    (zero : Bool) :
    ∃ z', Leads doubles true
      (numbered before parent (.integer (toInt64 (decimal numeral.whole)))
        { z.reset numeral.negative with
          numZero := zero, numDigits := numeral.whole.length })
      (Numeral.fractionText numeral.fraction ++
        (Numeral.exponentText numeral.exponent ++ i))
      (finish true
        (numbered before parent (measure (numeral.value doubles)) z') i) := by
  obtain ⟨negative, whole, _, _, fraction, exponent, start⟩ := numeral
  cases fraction with
  | none =>
      cases exponent with
      | none =>
          exact ⟨_, .last (step_end_integer delimited _ rfl)⟩
      | some exponent =>
          exact leads_scaled exponent delimited rfl rfl rfl rfl rfl rfl rfl
  | some fraction =>
      have digits : 0 < whole.length := by
        rcases start with nonempty | ⟨_, missing⟩
        · exact List.length_pos_iff.mpr nonempty
        · exact absurd missing (Option.some_ne_none fraction)
      have positive : 0 < fraction.digits.length :=
        List.length_pos_iff.mpr fraction.digits_ne_nil
      have point (rest : List Char) :=
        @step_point doubles before parent
          { z.reset negative with
            numZero := zero, numDigits := whole.length }
          (fraction.digits ++ rest) (toInt64 (decimal whole)) digits
      have more (rest : List Char) (outcome : Iteration) :=
        @leads_fraction doubles before parent
          { z.reset negative with numZero := zero, numDigits := 0 }
          fraction.digits fraction.isDigits
          (doubles.ofInteger (toInt64 (decimal whole))) rfl rest outcome
      simp only [Nat.zero_add, Scratch.reset,
        accumulate_decimal fraction.isDigits] at more
      cases exponent with
      | none =>
          exact ⟨_, .more (point i)
            (more i _ (.last (step_end_fraction delimited _ rfl positive)))⟩
      | some exponent =>
          have added :
              addFraction doubles
                { z.reset negative with
                  numZero := zero
                  numDigits := fraction.digits.length
                  numFraction := toInt64 (decimal fraction.digits) }
                (.double (doubles.ofInteger (toInt64 (decimal whole)))) =
              some
                (.double
                  (Numeral.mantissa doubles
                    ⟨negative, whole, ‹_›, ‹_›, some fraction, some exponent,
                      start⟩)) := by
            simp only [addFraction, Nat.ne_of_gt positive, if_false]
            rfl
          obtain ⟨z', leads⟩ :=
            leads_scaled exponent delimited rfl added rfl rfl rfl rfl rfl
          exact ⟨z', .more (point _) (more _ _ leads)⟩

/-- A number is read to its end. -/
theorem leads_number (numeral : Numeral) (delimited : Delimited i) :
    ∃ z', Leads doubles true (outside before parent 0 true false false z)
      (numeral.text ++ i)
      (finish true
        (numbered before parent (measure (numeral.value doubles)) z')
        i) := by
  obtain ⟨zero, digits⟩ :=
    @leads_digits doubles before parent z
      (Numeral.fractionText numeral.fraction ++
        (Numeral.exponentText numeral.exponent ++ i))
      numeral.whole numeral.isDigits numeral.zero_alone numeral.negative
  obtain ⟨z', behind⟩ :=
    @leads_behind_digits doubles before parent z i numeral delimited zero
  refine ⟨z', ?_⟩
  have later := digits _ behind
  rw [Numeral.text, List.append_assoc, List.append_assoc, List.append_assoc]
  cases negative : numeral.negative with
  | true =>
      rw [negative] at later
      exact .more step_minus later
  | false =>
      rw [negative] at later
      have nonempty : numeral.whole ≠ [] := by
        rcases numeral.whole_ne_nil with nonempty | ⟨minus, _⟩
        · exact nonempty
        · exact absurd minus (by simp [negative])
      obtain ⟨b, rest, whole⟩ := List.exists_cons_of_ne_nil nonempty
      rw [whole] at later ⊢
      have isDigit := numeral.isDigits b (whole ▸ List.mem_cons_self)
      exact .more (step_first_digit isDigit) later

end Parts

end YiimpStratum.Parse
