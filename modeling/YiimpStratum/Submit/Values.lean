import YiimpStratum.Template.Create
import YiimpStratum.Util.Difficulty

/-!
# Submissions and their header

The string parameters of `mining.submit` as `client_submit_equi` copies them
into its variables, the nonce and time checks on these, and the header that
`build_submit_values_equi` assembles.
-/

namespace YiimpStratum.Submit

open YiimpStratum
open YiimpStratum.Util
open YiimpStratum.Template

/-! ## Parameters -/

/-- `YAAMP_EQUI_NONCE_SIZE` -/
abbrev yaampEquiNonceSize : Nat := 32 - 4

/-- `EQUI_HEADER_SIZE` -/
abbrev equiHeaderSize : Nat := 4 + 32 + 32 + 32 + 4 + 4 + 32 + 1344 + 3

/-- The second to the fifth parameter of `mining.submit`. -/
structure SubmitRequest where
  jobidParam : CString
  ntimeParam : CString
  nonceParam : CString
  equiSolutionParam : CString

namespace SubmitRequest

/-- The variable `rev_ntime`. -/
def revNtime (request : SubmitRequest) : CString :=
  request.ntimeParam.take 8

/-- The variable `ntime`. -/
def ntime (request : SubmitRequest) : CString :=
  stringLower (stringBe request.revNtime)

/-- The variable `nonce`. -/
def nonce (request : SubmitRequest) : CString :=
  stringLower (request.nonceParam.take 64)

/-- The variable `equi_solution`. -/
def equiSolution (request : SubmitRequest) : CString :=
  stringLower (request.equiSolutionParam.take (1344 * 2 + 3 * 2))

end SubmitRequest

/-! ## Checks -/

/-- The check on the nonce. -/
def nonceAccepted (nonce : CString) : Bool :=
  nonce.length == yaampEquiNonceSize * 2 &&
    ishexa nonce (yaampEquiNonceSize * 2)

/-- `ntime_valid_range`, on a string of digits. -/
def ntimeValidRange (now : Int) (ntimehex : CString) : Bool :=
  let ntime := BigEndian.value (binlify ntimehex)
  ntimehex.length == 8 &&
    !(decide (ntime < 0x5b000000) || decide (0x60000000 < ntime)) &&
      decide ((now - ntime).natAbs < 30 * 60)

/-- The error of the time check, if any. -/
def ntimeError
    (config : Config) (templ : YaampJobTemplate) (now : Int)
    (ntime : CString) : Option String :=
  if ntime = templ.ntime then
    none
  else if !ishexa ntime 8 || !ntimeValidRange now ntime then
    some "Invalid time rolling"
  else if !config.allowRolltime then
    some "Invalid ntime (rolling not allowed)"
  else
    none

/-! ## The header -/

/-- `YAAMP_JOB_VALUES` -/
structure YaampJobValues where
  coinbase : CString
  merklerootBe : CString
  header : CString
  headerBe : CString
  headerBin : Vector UInt8 equiHeaderSize
  hashBin : Bytes32
  hashHex : CString
  hashBe : CString

/-- The zeroed array `header_bin` after `binlify`. -/
def binlifyHeader (hex : CString) : Vector UInt8 equiHeaderSize :=
  Vector.ofFn fun i => (binlify hex).getD i 0

section Definitions

variable (sha256Double : Sha256Double)

/-- `merkleroot_be`, from the coinbase transaction and the merkle steps. -/
def merklerootOf (templ : YaampJobTemplate) : CString :=
  merkleWithFirst sha256Double templ.txsteps
    (sha256DoubleHashHex sha256Double (binlify templ.coinbase))

/-- The string printed into `header`. -/
def headerOf
    (templ : YaampJobTemplate) (nonce1 ntime nonce equiSolution : CString) :
    CString :=
  stringBe templ.version ++ templ.prevhashBe ++
    merklerootOf sha256Double templ ++ templ.extradataBe ++ stringBe ntime ++
      stringBe templ.nbits ++ nonce1 ++ nonce ++ equiSolution

def buildSubmitValuesEqui
    (templ : YaampJobTemplate) (nonce1 ntime nonce equiSolution : CString) :
    YaampJobValues :=
  let header := headerOf sha256Double templ nonce1 ntime nonce equiSolution
  let headerBin := binlifyHeader header
  let hashBin := sha256Double (headerBin.toList.take (header.length / 2))
  let hashHex := hexlify hashBin.toList
  { coinbase := templ.coinbase
    merklerootBe := merklerootOf sha256Double templ
    header := header
    headerBe := header
    headerBin := headerBin
    hashBin := hashBin
    hashHex := hashHex
    hashBe := stringBe hashHex }

@[simp]
theorem buildSubmitValuesEqui_header
    (templ : YaampJobTemplate) (nonce1 ntime nonce equiSolution : CString) :
    (buildSubmitValuesEqui sha256Double templ nonce1 ntime nonce
        equiSolution).header =
      headerOf sha256Double templ nonce1 ntime nonce equiSolution :=
  rfl

end Definitions

/-! ## What the checks leave -/

theorem stringBe_stringLower (s : CString) :
    stringBe (stringLower s) = stringLower (stringBe s) := by
  induction s using stringBe.induct with
  | case1 =>
      rfl
  | case2 single =>
      rfl
  | case3 first second rest ih =>
      have unfolded :
          stringLower (first :: second :: rest) =
            first.toLower :: second.toLower :: stringLower rest :=
        rfl
      rw [unfolded, stringBe, ih, stringBe]
      simp [stringLower]

theorem length_of_nonceAccepted
    {nonce : CString} (accepted : nonceAccepted nonce = true) :
    nonce.length = 56 := by
  simp only [nonceAccepted, Bool.and_eq_true, beq_iff_eq] at accepted
  exact accepted.1

/-- An accepted nonce was not cut. -/
theorem nonce_eq_of_accepted
    {request : SubmitRequest}
    (accepted : nonceAccepted request.nonce = true) :
    request.nonce = stringLower request.nonceParam := by
  have digits := length_of_nonceAccepted accepted
  rw [SubmitRequest.nonce, length_stringLower, List.length_take] at digits
  rw [SubmitRequest.nonce, List.take_of_length_le (by omega)]

/-- A time that passes its check has 8 characters. -/
theorem length_of_ntimeError
    {config : Config} {templ : YaampJobTemplate} {now : Int}
    {ntime : CString} (digits : templ.ntime.length = 8)
    (accepted : ntimeError config templ now ntime = none) :
    ntime.length = 8 := by
  rw [ntimeError] at accepted
  split at accepted
  · rename_i same
    rw [same, digits]
  · split at accepted
    · exact absurd accepted (by simp)
    · rename_i valid
      simp only [ntimeValidRange, Bool.or_eq_true, Bool.not_eq_true',
        not_or, Bool.not_eq_false, Bool.and_eq_true, beq_iff_eq] at valid
      exact valid.2.1.1

/-- Reversed again, an accepted time is the start of its parameter. -/
theorem stringBe_ntime
    {request : SubmitRequest} (digits : request.ntime.length = 8) :
    stringBe request.ntime = stringLower (request.ntimeParam.take 8) := by
  rw [SubmitRequest.ntime, length_stringLower, length_stringBe,
    SubmitRequest.revNtime, List.length_take] at digits
  rw [SubmitRequest.ntime, stringBe_stringLower, SubmitRequest.revNtime,
    stringBe_stringBe]
  rw [List.length_take]
  omega

end YiimpStratum.Submit
