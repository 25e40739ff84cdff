import YiimpStratum.Submit.DecredPaid
import YiimpStratum.Submit.SameHeader

/-!
# Rolled times

A time other than that of the template passes the checks when it has eight
hexadecimal digits, is less than half an hour away from the clock, and lies
between two fixed dates, the second of which is in January 2021.  Under
Equihash the digits are those at the start of the parameter, with their bytes
in reverse order, and anything may follow them.
-/

namespace YiimpStratum.Submit

open YiimpStratum
open YiimpStratum.Util
open YiimpStratum.Template

/-! ## Digits -/

/-- A string of eight hexadecimal digits. -/
def EightDigits (text : CString) : Prop :=
  text.length = 8 ∧ text.all isxdigit = true

instance (text : CString) : Decidable (EightDigits text) :=
  inferInstanceAs (Decidable (_ ∧ _))

/-- The number with these digits. -/
def timeOf (text : CString) : Nat :=
  BigEndian.value (binlify (stringLower text))

/-- A letter is a digit in both cases or in none. -/
theorem isxdigit_toLower (c : Char) : isxdigit c.toLower = isxdigit c := by
  by_cases letter : c.val ≥ 'A'.val ∧ c.val ≤ 'Z'.val
  · have lower : 65 ≤ c.toNat := letter.1
    have upper : c.toNat ≤ 90 := letter.2
    have table :
        ∀ number < 26,
          isxdigit (Char.ofNat (65 + number)).toLower =
            isxdigit (Char.ofNat (65 + number)) := by
      decide
    have isLetter : Char.ofNat (65 + (c.toNat - 65)) = c := by
      rw [Nat.add_sub_cancel' lower, Char.ofNat_toNat]
    rw [← isLetter]
    exact table (c.toNat - 65) (by omega)
  · have unchanged : c.toLower = c := dif_neg letter
    rw [unchanged]

theorem all_isxdigit_stringLower (text : CString) :
    (stringLower text).all isxdigit = text.all isxdigit := by
  rw [stringLower, List.all_map]
  exact congrArg (List.all text) (funext isxdigit_toLower)

/-- Reversing the bytes keeps the characters. -/
theorem all_stringBe (p : Char → Bool) {text : CString}
    (even : text.length % 2 = 0) : (stringBe text).all p = text.all p := by
  induction text using stringBe.induct with
  | case1 => rfl
  | case2 single => exact absurd even Nat.one_ne_zero
  | case3 first second rest ih =>
      have restEven : rest.length % 2 = 0 := by
        rw [List.length_cons, List.length_cons] at even
        omega
      rw [stringBe, List.all_append, ih restEven]
      simp only [List.all_cons, List.all_nil, Bool.and_true]
      ac_rfl

/-! ## The checks -/

/-- Between the two dates, and less than half an hour from the clock. -/
def InWindow (now : Int) (time : Nat) : Prop :=
  (0x5b000000 ≤ time ∧ time ≤ 0x60000000) ∧ |now - time| < 1800

theorem ntimeValidRange_iff {now : Int} {text : CString}
    (length : text.length = 8) :
    ntimeValidRange now text = true ↔
      InWindow now (BigEndian.value (binlify text)) := by
  rw [ntimeValidRange, InWindow, length, beq_self_eq_true, Bool.true_and,
    Bool.and_eq_true, decide_eq_true_eq, Bool.not_eq_true',
    Bool.or_eq_false_iff,
    decide_eq_false_iff_not, decide_eq_false_iff_not, not_lt, not_lt]
  refine and_congr_right fun _ => ?_
  rw [Int.abs_eq_natAbs]
  omega

/-- The checks on a lower-case string, wherever it was copied from. -/
theorem rolling_iff {now : Int} {text : CString} :
    (ishexa (stringLower text) 8 = true ∧
        ntimeValidRange now (stringLower text) = true) ↔
      EightDigits text ∧ InWindow now (timeOf text) := by
  by_cases length : text.length = 8
  · have lower : (stringLower text).length = 8 :=
      (length_stringLower text).trans length
    have digits : ishexa (stringLower text) 8 = text.all isxdigit := by
      rw [← lower, ishexa_length, all_isxdigit_stringLower]
    rw [ntimeValidRange_iff lower, digits, EightDigits, timeOf,
      and_iff_right length]
  · refine iff_of_false ?_ fun both => length both.1.1
    rintro ⟨-, valid⟩
    rw [ntimeValidRange, Bool.and_eq_true, Bool.and_eq_true, beq_iff_eq,
      length_stringLower] at valid
    exact length valid.1.1

theorem eightDigits_stringBe {text : CString} (short : text.length ≤ 8) :
    EightDigits (stringBe text) ↔ EightDigits text := by
  have length : (stringBe text).length = 8 ↔ text.length = 8 := by
    rw [length_stringBe]
    omega
  rw [EightDigits, EightDigits, length]
  refine and_congr_right fun eight => ?_
  rw [all_stringBe isxdigit (by rw [eight])]

/-- When rolling is allowed, only the first error is possible. -/
theorem rollingError_eq_none {templNtime ntime : CString} {now : Int}
    {allowRolltime : Bool} (allowed : allowRolltime = true)
    (rolled : ntime ≠ templNtime) :
    (if ntime = templNtime then none
      else if !ishexa ntime 8 || !ntimeValidRange now ntime then
        some "Invalid time rolling"
      else if !allowRolltime then some "Invalid ntime (rolling not allowed)"
      else none) = none ↔
      ishexa ntime 8 = true ∧ ntimeValidRange now ntime = true := by
  rw [if_neg rolled, allowed]
  cases ishexa ntime 8 <;> cases ntimeValidRange now ntime <;> decide

/-- The time that `client_submit_equi` checks. -/
theorem ntimeError_iff {config : Config} {templ : YaampJobTemplate}
    {now : Int} {request : SubmitRequest}
    (allowed : config.allowRolltime = true)
    (rolled : request.ntime ≠ templ.ntime) :
    ntimeError config templ now request.ntime = none ↔
      EightDigits (request.ntimeParam.take 8) ∧
        InWindow now (timeOf (stringBe (request.ntimeParam.take 8))) := by
  rw [ntimeError, rollingError_eq_none allowed rolled, SubmitRequest.ntime,
    rolling_iff, SubmitRequest.revNtime]
  refine and_congr_left fun _ => ?_
  exact eightDigits_stringBe (List.length_take_le 8 _)

/-- The time that `client_submit` checks. -/
theorem decred_ntimeError_iff {env : Decred.Environment}
    {templ : Decred.YaampJobTemplate} {now : Int} {params : List CString}
    {request : Decred.SubmitRequest} {ntimeParam : CString}
    (copied : Decred.submitRequest? env params = some request)
    (fourth : params[3]? = some ntimeParam)
    (allowed : env.allowRolltime = true)
    (rolled : request.ntime ≠ templ.ntime) :
    Decred.ntimeError env templ now request.ntime = none ↔
      EightDigits ntimeParam ∧ InWindow now (timeOf ntimeParam) := by
  have copy : request.ntime = stringLower (ntimeParam.take 31) := by
    rw [Decred.submitRequest?.eq_def] at copied
    split at copied
    · obtain rfl := Option.some.inj fourth
      split at copied
      · exact absurd copied (by simp)
      · rw [← Option.some.inj copied]
    · exact absurd copied (by simp)
  rw [Decred.ntimeError, rollingError_eq_none allowed rolled, copy,
    rolling_iff]
  by_cases short : ntimeParam.length ≤ 31
  · rw [List.take_of_length_le short]
  · -- neither the copy nor the parameter has eight characters
    have cut : (ntimeParam.take 31).length = 31 := by
      rw [List.length_take]
      omega
    refine iff_of_false ?_ ?_
    · rintro ⟨⟨eight, -⟩, -⟩
      omega
    · rintro ⟨⟨eight, -⟩, -⟩
      omega

/--
With rolling allowed, a time that is not that of the template is accepted
exactly when it has eight hexadecimal digits, is less than half an hour from
the clock, and lies between the two dates.  `client_submit_equi` looks at the
first eight characters and reverses their bytes.
-/
theorem rolledTime_accepted_iff (now : Int) :
    (∀ (config : Config) (templ : YaampJobTemplate) (request : SubmitRequest),
      config.allowRolltime = true → request.ntime ≠ templ.ntime →
        (ntimeError config templ now request.ntime = none ↔
          EightDigits (request.ntimeParam.take 8) ∧
            |now - timeOf (stringBe (request.ntimeParam.take 8))| < 1800 ∧
              0x5b000000 ≤ timeOf (stringBe (request.ntimeParam.take 8)) ∧
                timeOf (stringBe (request.ntimeParam.take 8)) ≤
                  0x60000000)) ∧
      ∀ (env : Decred.Environment) (templ : Decred.YaampJobTemplate)
        (params : List CString) (request : Decred.SubmitRequest)
        (ntimeParam : CString),
        Decred.submitRequest? env params = some request →
          params[3]? = some ntimeParam → env.allowRolltime = true →
            request.ntime ≠ templ.ntime →
              (Decred.ntimeError env templ now request.ntime = none ↔
                EightDigits ntimeParam ∧
                  |now - timeOf ntimeParam| < 1800 ∧
                    0x5b000000 ≤ timeOf ntimeParam ∧
                      timeOf ntimeParam ≤ 0x60000000) := by
  refine ⟨?_, ?_⟩
  · intro config templ request allowed rolled
    rw [ntimeError_iff allowed rolled, InWindow]
    exact and_congr_right fun _ => and_comm
  · intro env templ params request ntimeParam copied fourth allowed rolled
    rw [decred_ntimeError_iff copied fourth allowed rolled, InWindow]
    exact and_congr_right fun _ => and_comm

/-- A submission with this time. -/
def timedParams (time : Nat) : List CString :=
  [['w'], ['1'], [], hex8 time, hex8 7]

/-- An Equihash submission with this time, its lowest byte first. -/
def timedRequest (time : Nat) : SubmitRequest :=
  { sampleRequest with ntimeParam := stringBe (hex8 time) }

/-- Sixteen seconds after the clock, in 2018, both handlers take the time. -/
theorem earlyTime_accepted :
    ntimeError sampleConfig (templateHeader 0 (sampleGbt [])) 0x5c000000
        (timedRequest 0x5c000010).ntime = none ∧
      Decred.ntimeError Decred.sampleEnvironment Decred.sampleTempl
        0x5c000000 (hex8 0x5c000010) = none := by
  obtain ⟨equi, other⟩ := rolledTime_accepted_iff 0x5c000000
  constructor
  · have accepted :=
      (equi sampleConfig (templateHeader 0 (sampleGbt []))
        (timedRequest 0x5c000010) rfl (by decide)).mpr
    exact accepted ⟨by decide, by decide, by decide, by decide⟩
  · have accepted :=
      (other Decred.sampleEnvironment Decred.sampleTempl
        (timedParams 0x5c000010)
        { jobid := 1
          extranonce2 := []
          ntime := hex8 0x5c000010
          nonce := hex8 7
          vote := [] }
        (hex8 0x5c000010) rfl rfl rfl (by decide)).mpr
    exact accepted ⟨by decide, by decide, by decide, by decide⟩

/-- The time of the clock itself, in 2024. -/
theorem lateTime_rejected :
    Decred.sampleEnvironment.allowRolltime = true ∧
      hex8 0x66000000 ≠ Decred.sampleTempl.ntime ∧
        ¬ (Decred.ntimeError Decred.sampleEnvironment Decred.sampleTempl
              0x66000000 (hex8 0x66000000) = none ↔
            EightDigits (hex8 0x66000000) ∧
              |0x66000000 - (timeOf (hex8 0x66000000) : Int)| < 1800) := by
  refine ⟨rfl, by decide, fun equivalent => ?_⟩
  exact absurd (equivalent.mpr ⟨by decide, by decide⟩) (by decide)

end YiimpStratum.Submit
