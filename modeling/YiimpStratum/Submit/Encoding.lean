import YiimpStratum.Equihash.Solution
import YiimpStratum.Submit.History
import YiimpStratum.Submit.Layout
import YiimpStratum.Util.HexText

/-!
# The encoding of the solution

The handler has no check on the form of the solution string.  It is cut at
2694 characters, put in lower case, decoded with zero for every character that
is no digit, and padded with zeros to the size of `header_bin`; the verifier
skips the three bytes of the size.

So a string in another form than `fd4005` and 2688 digits is credited when the
remaining checks pass for the bytes that it decodes to.  Those in front of the
verifier do not look at it; what the verifier says of the bytes depends on the
hash function.
-/

namespace YiimpStratum.Submit

open YiimpStratum
open YiimpStratum.Util
open YiimpStratum.Template
open YiimpStratum.Equihash

/-! ## The canonical form -/

/-- The size `fd4005` and 2688 hexadecimal digits. -/
def CanonicalSolution (solution : CString) : Prop :=
  solution.length = 2694 ∧
    stringLower (solution.take 6) = ['f', 'd', '4', '0', '0', '5'] ∧
      ishexa (solution.drop 6) 2688 = true

instance (solution : CString) : Decidable (CanonicalSolution solution) :=
  inferInstanceAs (Decidable (_ ∧ _ ∧ _))

/-- The array `header_bin` is the header that the daemon would decode. -/
def ExactHeader (values : YaampJobValues) : Prop :=
  values.headerBin.toList = binlify values.headerBe

/-- The template and the nonce prefix leave room for exactly one solution. -/
def FullFields (templ : YaampJobTemplate) (client : YaampClient) : Prop :=
  templ.prevhashBe.length + templ.extradataBe.length +
    client.extranonce1.text.length = 136

theorem toList_binlifyHeader_iff (hex : CString) :
    (binlifyHeader hex).toList = binlify hex ↔
      hex.length / 2 = equiHeaderSize := by
  constructor
  · intro same
    have lengths := congrArg List.length same
    rw [Vector.length_toList, length_binlify] at lengths
    exact lengths.symm
  · intro lengths
    apply List.ext_getElem
    · rw [Vector.length_toList, length_binlify, lengths]
    · intro i leftBelow rightBelow
      rw [Vector.length_toList] at leftBelow
      have entry := binlifyHeader_get hex ⟨i, leftBelow⟩
      rw [List.getD_eq_getElem _ _ rightBelow] at entry
      rw [Vector.getElem_toList]
      exact entry

section Exact

variable {env : Environment} {server : Server} {client : YaampClient}
variable {now : Int} {request : SubmitRequest} {job : YaampJob}

/-- A canonical solution of a full header fills the array exactly. -/
theorem exactHeader_iff
    (aligned : AlignedTemplate job.templ)
    (passed : rejection env server job client now request = none)
    (canonical : CanonicalSolution request.equiSolutionParam) :
    ExactHeader (submitvalues env job.templ client request) ↔
      FullFields job.templ client := by
  obtain ⟨nonceOk, timeOk, -⟩ := rejection_eq_none_iff.mp passed
  have prevhash := aligned.prevhashBe
  have extradata := aligned.extradataBe
  have nonce1Digits :
      client.extranonce1.text.length = 0 ∨
        client.extranonce1.text.length = 8 := by
    rcases client.extranonce1.wellFormed with empty | ⟨digits, -⟩
    · rw [empty]
      exact Or.inl rfl
    · exact Or.inr digits
  have solution : request.equiSolution.length = 2694 := by
    rw [SubmitRequest.equiSolution, length_stringLower, List.length_take,
      canonical.1]
    rfl
  have total :=
    length_headerOf env.sha256Double aligned client.extranonce1.text
      request.equiSolution (lowerHex_ntime aligned timeOk).1
      (length_of_nonceAccepted nonceOk)
  have size : equiHeaderSize = 1487 := rfl
  rw [ExactHeader, FullFields]
  refine (toList_binlifyHeader_iff _).trans ?_
  rw [total, solution, size]
  omega

/-! ## The bytes that the verifier reads -/

/-- The bytes behind the size that the solution string decodes to. -/
def decodedSolution (request : SubmitRequest) : SolutionBytes :=
  Vector.ofFn fun i => (binlify request.equiSolution).getD (3 + i) 0

/-- In a full header, the verifier reads the solution from its string. -/
theorem ehSln_submitvalues
    (aligned : AlignedTemplate job.templ)
    (key :
      CanonicalKey client.extranonce1.text request.ntime request.nonce)
    (full : FullFields job.templ client) :
    ehSln (submitvalues env job.templ client request).headerBin =
      decodedSolution request := by
  have even := headerKey_even env.sha256Double aligned key
  have count := length_headerKey env.sha256Double aligned key
  have front :
      (binlify (headerKey env.sha256Double job.templ client.extranonce1.text
        request.ntime request.nonce)).length = 140 := by
    rw [FullFields] at full
    rw [length_binlify, count]
    omega
  refine congrArg Vector.ofFn (funext fun i => ?_)
  have position : 143 + i.val = 140 + (3 + i.val) := by
    omega
  rw [submitvalues, buildSubmitValuesEqui, binlifyHeader_get,
    headerOf_eq_headerKey, binlify_append _ _ even]
  simp only [position]
  rw [List.getD_append_right _ _ _ _ (by rw [front]; omega), front,
    Nat.add_sub_cancel_left]

/-- A string that decodes to zeros passes the verifier. -/
theorem verifyEH_of_decodedSolution_eq_zero
    (aligned : AlignedTemplate job.templ)
    (key :
      CanonicalKey client.extranonce1.text request.ntime request.nonce)
    (full : FullFields job.templ client)
    (zero : decodedSolution request = zeroSolution) :
    verifyEH env.blake2b
        (ehHdr (submitvalues env job.templ client request).headerBin)
        (ehSln (submitvalues env job.templ client request).headerBin) =
      true := by
  rw [ehSln_submitvalues aligned key full, zero]
  exact verifyEH_zeroSolution _ _

/-- At a difficulty up to one half, no hash is too high. -/
theorem lowDifficulty_of_le_half
    (templ : YaampJobTemplate) (hashBin : Bytes32)
    (positive : 0 < client.difficultyActual)
    (small : client.difficultyActual ≤ 1 / 2) :
    lowDifficulty client templ hashBin = false := by
  have window := equiWindow_lt hashBin
  have reached :
      hashInt hashBin ≤
        diffToTarget equihashDiffMultiplier client.difficultyActual := by
    have scaled :
        (0x0001fffe00000000 : ℚ) ≤
          0x0000ffff00000000 * equihashDiffMultiplier /
            client.difficultyActual := by
      rw [le_div_iff₀ positive, equihashDiffMultiplier]
      linarith
    rw [hashInt_eq, diffToTarget, if_neg positive.ne', truncate]
    apply Nat.le_floor
    refine le_trans ?_ scaled
    exact_mod_cast (by omega :
      equiWindow hashBin * 2 ^ 16 ≤ 0x0001fffe00000000)
  rw [lowDifficulty, decide_eq_false (not_lt.mpr reached), Bool.false_and]

/--
At a difficulty up to one half, every submission that passes the checks on its
key is credited when its solution string decodes to zeros.
-/
theorem rejection_of_decodedSolution_eq_zero
    (aligned : AlignedTemplate job.templ)
    (full : FullFields job.templ client)
    (nonceOk : nonceAccepted request.nonce = true)
    (timeOk : ntimeError env.config job.templ now request.ntime = none)
    (fresh : isDuplicate server job client request = false)
    (zero : decodedSolution request = zeroSolution)
    (positive : 0 < client.difficultyActual)
    (small : client.difficultyActual ≤ 1 / 2) :
    rejection env server job client now request = none := by
  have key :=
    canonicalKey_of_accepted client.extranonce1 aligned nonceOk timeOk
  exact rejection_eq_none_iff.mpr
    ⟨nonceOk, timeOk, fresh,
      verifyEH_of_decodedSolution_eq_zero aligned key full zero,
      lowDifficulty_of_le_half job.templ _ positive small⟩

/-! ## Credited encodings -/

/--
A check in front of the verifier turns the submission away; none of them looks
at the solution.
-/
def TurnedAway
    (env : Environment) (server : Server) (job : YaampJob)
    (client : YaampClient) (now : Int) (request : SubmitRequest) : Prop :=
  job.deleted = true ∨
    nonceAccepted request.nonce = false ∨
      ntimeError env.config job.templ now request.ntime ≠ none ∨
        isDuplicate server job client request = true

theorem not_turnedAway_of_creditedJob
    (credited : creditedJob env server client now request = some job) :
    ¬ TurnedAway env server job client now request := by
  obtain ⟨-, live, passed⟩ := creditedJob_eq_some credited
  obtain ⟨nonceOk, timeOk, fresh, -⟩ := rejection_eq_none_iff.mp passed
  rw [TurnedAway, live, nonceOk, timeOk, fresh]
  simp

/-- What is credited for a listed job is as canonical as it was submitted. -/
theorem canonical_of_creditedJob
    (aligned : AlignedTemplate job.templ)
    (credited : creditedJob env server client now request = some job)
    (submitted :
      TurnedAway env server job client now request ∨
        CanonicalSolution request.equiSolutionParam ∧
          FullFields job.templ client) :
    CanonicalSolution request.equiSolutionParam ∧
      ExactHeader (submitvalues env job.templ client request) := by
  obtain ⟨-, -, passed⟩ := creditedJob_eq_some credited
  rcases submitted with turned | ⟨canonical, full⟩
  · exact absurd turned (not_turnedAway_of_creditedJob credited)
  · exact ⟨canonical, (exactHeader_iff aligned passed canonical).mpr full⟩

/--
At a difficulty up to one half, a string that decodes to zeros is credited
when no check in front of the verifier turns it away.
-/
theorem creditedJob_of_decodedSolution_eq_zero
    (aligned : AlignedTemplate job.templ)
    (full : FullFields job.templ client)
    (found : jobFind server.jobs (htoi request.jobidParam) = some job)
    (kept : ¬ TurnedAway env server job client now request)
    (zero : decodedSolution request = zeroSolution)
    (positive : 0 < client.difficultyActual)
    (small : client.difficultyActual ≤ 1 / 2) :
    creditedJob env server client now request = some job := by
  simp only [TurnedAway, not_or, Bool.not_eq_true, Bool.not_eq_false,
    not_not] at kept
  obtain ⟨live, nonceOk, timeOk, fresh⟩ := kept
  have passed :=
    rejection_of_decodedSolution_eq_zero aligned full nonceOk timeOk fresh
      zero positive small
  rw [creditedJob, found, Option.filter_some, passed, live]
  rfl

end Exact

section Credited

variable (env : Environment) (server : Server) (client : YaampClient)
variable (now : Int) (request : SubmitRequest)

/-- What is credited has a canonical solution, and its header is exact. -/
def CreditedCanonical : Prop :=
  ∀ job, creditedJob env server client now request = some job →
    CanonicalSolution request.equiSolutionParam ∧
      ExactHeader (submitvalues env job.templ client request)

/--
A submission to a listed job is turned away in front of the verifier, or it
has a canonical solution for a full header.
-/
def SubmittedCanonical : Prop :=
  ∀ job, jobFind server.jobs (htoi request.jobidParam) = some job →
    TurnedAway env server job client now request ∨
      CanonicalSolution request.equiSolutionParam ∧
        FullFields job.templ client

end Credited

section History

variable (env : Environment) (events : List Event) (client : YaampClient)
variable (now : Int) (request : SubmitRequest)

/--
In every reachable state, a canonical solution for a full header is enough.
-/
theorem creditedCanonical_of_submittedCanonical
    (submitted :
      SubmittedCanonical env (historyAfter env events).server client now
        request) :
    CreditedCanonical env (historyAfter env events).server client now
      request := by
  intro job credited
  obtain ⟨found, -⟩ := creditedJob_eq_some credited
  have aligned :=
    (JobsCreated.run env events).aligned (jobFind_eq_some found).1
  exact canonical_of_creditedJob aligned credited (submitted job found)

/--
For the strings that decode to zeros it is also necessary, at a difficulty up
to one half.
-/
theorem creditedCanonical_iff_of_decodedSolution_eq_zero
    (full :
      ∀ job,
        jobFind (historyAfter env events).server.jobs
            (htoi request.jobidParam) =
          some job →
        FullFields job.templ client)
    (zero : decodedSolution request = zeroSolution)
    (positive : 0 < client.difficultyActual)
    (small : client.difficultyActual ≤ 1 / 2) :
    CreditedCanonical env (historyAfter env events).server client now
        request ↔
      SubmittedCanonical env (historyAfter env events).server client now
        request := by
  have aligned (job : YaampJob)
      (found :
        jobFind (historyAfter env events).server.jobs
            (htoi request.jobidParam) =
          some job) :
      AlignedTemplate job.templ :=
    (JobsCreated.run env events).aligned (jobFind_eq_some found).1
  constructor
  · intro canonical job found
    rw [or_iff_not_imp_left]
    intro kept
    have credited :=
      creditedJob_of_decodedSolution_eq_zero (aligned job found)
        (full job found) found kept zero positive small
    exact ⟨(canonical job credited).1, full job found⟩
  · intro submitted job credited
    obtain ⟨found, -⟩ := creditedJob_eq_some credited
    exact canonical_of_creditedJob (aligned job found) credited
      (submitted job found)

end History

/-! ## The empty string -/

theorem decodedSolution_of_empty
    {request : SubmitRequest} (empty : request.equiSolutionParam = []) :
    decodedSolution request = zeroSolution := by
  have decoded : binlify request.equiSolution = [] := by
    rw [SubmitRequest.equiSolution, empty, List.take_nil]
    rfl
  rw [decodedSolution, decoded, zeroSolution]
  apply Vector.ext
  intro i inside
  rw [Vector.getElem_ofFn, Vector.getElem_replicate, List.getD_nil]

/-- The string of a solution with its size is canonical. -/
theorem canonicalSolution_hexlify (soln : SolutionBytes) :
    CanonicalSolution (hexlify ([0xfd, 0x40, 0x05] ++ soln.toList)) := by
  have parts :
      hexlify ([0xfd, 0x40, 0x05] ++ soln.toList) =
        ['f', 'd', '4', '0', '0', '5'] ++ hexlify soln.toList := by
    rw [hexlify, List.flatMap_append]
    rfl
  have count : (hexlify soln.toList).length = 2688 := by
    rw [length_hexlify, Vector.length_toList]
    rfl
  rw [parts]
  refine ⟨?_, ?_, ?_⟩
  · rw [List.length_append, count]
    rfl
  · change stringLower ['f', 'd', '4', '0', '0', '5'] = _
    decide
  · change ishexa (hexlify soln.toList) 2688 = true
    rw [← count, ishexa_length, List.all_eq_true]
    intro c member
    exact isxdigit_of_isLowerHexDigit (lowerHex_hexlify _ c member)

/-- A canonical string decodes to its solution. -/
theorem decodedSolution_hexlify
    {request : SubmitRequest} (soln : SolutionBytes)
    (param :
      request.equiSolutionParam =
        hexlify ([0xfd, 0x40, 0x05] ++ soln.toList)) :
    decodedSolution request = soln := by
  have decoded :
      binlify request.equiSolution = [0xfd, 0x40, 0x05] ++ soln.toList := by
    rw [SubmitRequest.equiSolution, param, List.take_of_length_le,
      stringLower_of_lowerHex (lowerHex_hexlify _), binlify_hexlify]
    rw [length_hexlify, List.length_append, Vector.length_toList]
    decide
  rw [decodedSolution, decoded]
  apply Vector.ext
  intro i inside
  rw [Vector.getElem_ofFn, List.getD_append_right _ _ _ _ (by simp)]
  simp [getElem?_pos, inside]

section Sample

theorem sampleTempl_aligned : AlignedTemplate (sampleTempl []) :=
  coindCreateTemplate_aligned (sampleTempl_created [])

theorem sampleTempl_full : FullFields (sampleTempl []) sampleClient := by
  rcases coindCreateTemplate_cases (sampleTempl_created []) with
    ⟨aux, -⟩ | ⟨-, coinbasetxn, coinb1, coinb2, -, -, same⟩
  · exact absurd aux (by decide)
  · have header :
        (templateHeader 0 (sampleGbt [])).extradataBe =
          stringBe (optionalText (some (repeatedByte 0x00))) :=
      rfl
    rw [FullFields, same]
    simp only [templateBody]
    rw [header, length_stringBe, length_stringBe,
      templateHeader_prevhashHex, HexDigits.length_text]
    rfl

/-- A sample submission whose string decodes to zeros passes the checks. -/
theorem rejection_sampleSubmission
    {server : Server} {job : YaampJob} {jobid equiSolution : CString}
    (templ : job.templ = sampleTempl [])
    (fresh :
      isDuplicate server job sampleClient
          (sampleSubmission jobid equiSolution) =
        false)
    (zero :
      decodedSolution (sampleSubmission jobid equiSolution) =
        zeroSolution) :
    rejection sampleEnvironment server job sampleClient 0
        (sampleSubmission jobid equiSolution) =
      none := by
  refine
    rejection_of_decodedSolution_eq_zero ?_ ?_ ?_ ?_ fresh zero
      (by norm_num [sampleClient]) (by norm_num [sampleClient])
  · rw [templ]
    exact sampleTempl_aligned
  · rw [templ]
    exact sampleTempl_full
  · rw [sampleSubmission_nonce]
    exact sampleRequest_nonceAccepted
  · rw [sampleSubmission_ntime, templ, sampleEnvironment_config]
    exact sampleRequest_ntimeError []

/-- A string that decodes to zeros is credited in the sample state. -/
theorem creditedJob_sampleSubmission
    {equiSolution : CString}
    (zero :
      decodedSolution (sampleSubmission ['1'] equiSolution) = zeroSolution) :
    creditedJob sampleEnvironment
        (historyAfter sampleEnvironment [sampleCreation]).server
        sampleClient 0 (sampleSubmission ['1'] equiSolution) =
      some (sampleJob 1) := by
  have passed :
      rejection sampleEnvironment sampleServer (sampleJob 1) sampleClient 0
          (sampleSubmission ['1'] equiSolution) =
        none :=
    rejection_sampleSubmission (sampleJob_templ 1) rfl zero
  have found :
      jobFind sampleServer.jobs
          (htoi (sampleSubmission ['1'] equiSolution).jobidParam) =
        some (sampleJob 1) :=
    rfl
  rw [historyAfter, Run.after_cons, Run.after_nil,
    historyStep_sampleCreation, creditedJob, found, Option.filter_some,
    passed, sampleJob_live]
  rfl

/-- After one job was created, the canonical string of zeros is credited. -/
theorem creditedCanonical_of_submittedCanonical_zeros :
    let server := (historyAfter sampleEnvironment [sampleCreation]).server
    let request :=
      sampleSubmission ['1']
        (hexlify ([0xfd, 0x40, 0x05] ++ zeroSolution.toList))
    creditedJob sampleEnvironment server sampleClient 0 request =
        some (sampleJob 1) ∧
      CreditedCanonical sampleEnvironment server sampleClient 0 request := by
  intro server request
  have credited :=
    creditedJob_sampleSubmission (decodedSolution_hexlify zeroSolution rfl)
  refine ⟨credited, ?_⟩
  apply creditedCanonical_of_submittedCanonical
  intro job found
  have isSample : sampleJob 1 = job :=
    Option.some.inj ((creditedJob_eq_some credited).1.symm.trans found)
  rw [← isSample, sampleJob_templ]
  exact .inr ⟨canonicalSolution_hexlify zeroSolution, sampleTempl_full⟩

/--
After one job was created, a submission with the empty string as its solution
is credited.
-/
theorem noncanonical_credited_at_emptySolution :
    ¬ CreditedCanonical sampleEnvironment
      (historyAfter sampleEnvironment [sampleCreation]).server
      sampleClient 0 (sampleSubmission ['1'] []) := by
  intro canonical
  have credited := creditedJob_sampleSubmission (decodedSolution_of_empty rfl)
  exact absurd (canonical _ credited).1.1 (by decide)

end Sample

end YiimpStratum.Submit
