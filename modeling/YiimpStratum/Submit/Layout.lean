import YiimpStratum.Submit.Handler

/-!
# The layout of the header

The lengths of the header fields of a created template, and what the array
`header_bin` holds at the positions of the submitted fields.  Under one
template and one length of the nonce prefix, the header bytes determine the
time, the nonce prefix and the nonce.
-/

namespace YiimpStratum.Submit

open YiimpStratum
open YiimpStratum.Util
open YiimpStratum.Template

/-! ## Lengths of template fields -/

/-- The lengths of the header fields of a template, and its time. -/
structure AlignedTemplate (templ : YaampJobTemplate) : Prop where
  version : templ.version.length = 8
  prevhashBe : templ.prevhashBe.length = 0 ∨ templ.prevhashBe.length = 64
  extradataBe :
    templ.extradataBe.length = 0 ∨ templ.extradataBe.length = 64 ∨
      templ.extradataBe.length = 128
  nbits : templ.nbits.length = 8
  ntime : templ.ntime.length = 8 ∧ LowerHex templ.ntime

theorem length_serStringBe2_of_hash (digits : HexDigits 64) :
    (serStringBe2 digits.text 8).length = 64 := by
  have word (i : Nat) (below : i < 8) :
      ((digits.text.drop ((8 - i - 1) * 8)).take 8).length = 8 := by
    rw [List.length_take, List.length_drop, digits.length_text]
    omega
  rw [serStringBe2, List.length_flatMap, List.map_congr_left
    fun i below => word i (List.mem_range.mp below)]
  rfl

theorem templateHeader_aligned (now : Int) (gbt : GetBlockTemplate) :
    AlignedTemplate (templateHeader now gbt) := by
  have reserved := length_optionalText gbt.finalsaplingroothash
  have ntime :
      (hex8OfInt gbt.curtime).length = 8 ∧
        LowerHex (hex8OfInt gbt.curtime) :=
    ⟨length_hex8 _, lowerHex_hexlify _⟩
  rw [templateHeader]
  split
  · rename_i scRoot scUtxo foundRoot foundUtxo
    refine ⟨length_hex8 _, Or.inl rfl, Or.inr (Or.inr ?_),
      gbt.bits.length_text, ntime⟩
    rw [List.length_append, length_serStringBe2_of_hash,
      length_serStringBe2_of_hash]
  · refine ⟨length_hex8 _, Or.inl rfl, ?_, gbt.bits.length_text, ntime⟩
    simp only [length_stringBe]
    omega

/-- Every created template is aligned. -/
theorem coindCreateTemplate_aligned
    {sha256Double : Sha256Double}
    {coinbaseCreate : YaampJobTemplate → CString × CString}
    {config : Config} {coind : YaampCoind} {now : Int}
    {gbt : GetBlockTemplate} {templ : YaampJobTemplate}
    (created :
      coindCreateTemplate sha256Double coinbaseCreate config coind now gbt =
        some templ) :
    AlignedTemplate templ := by
  have header := templateHeader_aligned now gbt
  rcases coindCreateTemplate_cases created with
    ⟨-, rfl⟩ | ⟨-, coinbasetxn, coinb1, coinb2, -, -, rfl⟩
  · exact header
  · refine ⟨header.version, Or.inr ?_, header.extradataBe, header.nbits,
      header.ntime⟩
    simp only [templateBody]
    rw [length_stringBe, templateHeader_prevhashHex,
      gbt.previousblockhash.length_text]

/-! ## The header string -/

section Header

variable (sha256Double : Sha256Double)

/-- The fields before the time. -/
def headerFront (templ : YaampJobTemplate) : CString :=
  stringBe templ.version ++ templ.prevhashBe ++
    merklerootOf sha256Double templ ++ templ.extradataBe

@[simp]
theorem length_merklerootOf (templ : YaampJobTemplate) :
    (merklerootOf sha256Double templ).length = 64 :=
  length_merkleWithFirst sha256Double _ _
    (length_sha256DoubleHashHex sha256Double _)

theorem length_headerFront
    {templ : YaampJobTemplate} (aligned : AlignedTemplate templ) :
    (headerFront sha256Double templ).length =
      72 + templ.prevhashBe.length + templ.extradataBe.length := by
  simp only [headerFront, List.length_append, length_stringBe,
    aligned.version, length_merklerootOf]
  omega

theorem headerOf_eq
    (templ : YaampJobTemplate) (nonce1 ntime nonce equiSolution : CString) :
    headerOf sha256Double templ nonce1 ntime nonce equiSolution =
      headerFront sha256Double templ ++
        (stringBe ntime ++
          (stringBe templ.nbits ++
            (nonce1 ++ (nonce ++ equiSolution)))) := by
  simp only [headerOf, headerFront, List.append_assoc]

theorem length_headerOf
    {templ : YaampJobTemplate} (aligned : AlignedTemplate templ)
    (nonce1 equiSolution : CString) {ntime nonce : CString}
    (ntimeDigits : ntime.length = 8) (nonceDigits : nonce.length = 56) :
    (headerOf sha256Double templ nonce1 ntime nonce equiSolution).length =
      144 + templ.prevhashBe.length + templ.extradataBe.length +
        nonce1.length + equiSolution.length := by
  rw [headerOf_eq, List.length_append, length_headerFront _ aligned]
  simp only [List.length_append, length_stringBe, ntimeDigits, nonceDigits,
    aligned.nbits]
  omega

end Header

/-! ## The array of header bytes -/

theorem binlifyHeader_get (hex : CString) (i : Fin equiHeaderSize) :
    (binlifyHeader hex).get i = (binlify hex).getD i 0 :=
  Vector.getElem_ofFn i.isLt

/-- Equal arrays agree where both headers are long enough. -/
theorem take_binlify_eq
    {left right : CString} (count : Nat)
    (fits : count ≤ equiHeaderSize)
    (leftLong : count ≤ (binlify left).length)
    (rightLong : count ≤ (binlify right).length)
    (same : binlifyHeader left = binlifyHeader right) :
    (binlify left).take count = (binlify right).take count := by
  apply List.ext_getElem
  · rw [List.length_take, List.length_take]
    omega
  · intro i leftBelow rightBelow
    rw [List.length_take] at leftBelow
    have entry :=
      congrArg
        (fun bytes : Vector UInt8 equiHeaderSize =>
          bytes.get ⟨i, by omega⟩)
        same
    simp only [binlifyHeader_get] at entry
    rw [List.getD_eq_getElem _ _ (by omega),
      List.getD_eq_getElem _ _ (by omega)] at entry
    rw [List.getElem_take, List.getElem_take]
    exact entry

/-! ## The submitted fields -/

/-- The strings of an accepted time and nonce, and of a nonce prefix. -/
structure CanonicalKey (nonce1 ntime nonce : CString) : Prop where
  nonce1 : nonce1 = [] ∨ nonce1.length = 8 ∧ LowerHex nonce1
  ntime : ntime.length = 8 ∧ LowerHex ntime
  nonce : nonce.length = 56 ∧ LowerHex nonce

theorem CanonicalKey.nonce1_lowerHex {nonce1 ntime nonce : CString}
    (key : CanonicalKey nonce1 ntime nonce) :
    LowerHex nonce1 ∧ nonce1.length % 2 = 0 ∧ nonce1.length ≤ 8 := by
  rcases key.nonce1 with rfl | ⟨digits, hex⟩
  · exact ⟨by decide, rfl, by decide⟩
  · exact ⟨hex, by omega, by omega⟩

/-- A nonce that passes its check is canonical. -/
theorem lowerHex_nonce {request : SubmitRequest}
    (accepted : nonceAccepted request.nonce = true) :
    LowerHex request.nonce := by
  have digits := length_of_nonceAccepted accepted
  simp only [nonceAccepted, Bool.and_eq_true] at accepted
  rw [SubmitRequest.nonce] at digits accepted ⊢
  apply lowerHex_stringLower_of_ishexa
  rw [length_stringLower] at digits
  rw [digits]
  exact accepted.2

/-- A time that passes its check is canonical. -/
theorem lowerHex_ntime
    {config : Config} {templ : YaampJobTemplate} {now : Int}
    {request : SubmitRequest} (aligned : AlignedTemplate templ)
    (accepted : ntimeError config templ now request.ntime = none) :
    request.ntime.length = 8 ∧ LowerHex request.ntime := by
  have digits := length_of_ntimeError aligned.ntime.1 accepted
  refine ⟨digits, ?_⟩
  rw [ntimeError] at accepted
  split at accepted
  · rename_i same
    rw [same]
    exact aligned.ntime.2
  · split at accepted
    · exact absurd accepted (by simp)
    · rename_i valid
      simp only [Bool.or_eq_true, Bool.not_eq_true', not_or,
        Bool.not_eq_false] at valid
      rw [SubmitRequest.ntime] at digits valid ⊢
      apply lowerHex_stringLower_of_ishexa
      rw [length_stringLower] at digits
      rw [digits]
      exact valid.1

theorem lowerHex_stringBe {s : CString} (digits : LowerHex s) :
    LowerHex (stringBe s) := by
  induction s using stringBe.induct with
  | case1 =>
      exact digits
  | case2 single =>
      simp [LowerHex, stringBe]
  | case3 first second rest ih =>
      intro c occurs
      rw [stringBe, List.mem_append] at occurs
      rcases occurs with inRest | inPair
      · exact
          ih (fun c occurs => digits c (List.mem_cons_of_mem _
            (List.mem_cons_of_mem _ occurs))) c inRest
      · rcases List.mem_cons.mp inPair with rfl | inSecond
        · exact digits _ List.mem_cons_self
        · rw [List.mem_singleton.mp inSecond]
          exact digits _ (List.mem_cons_of_mem _ List.mem_cons_self)

section Keys

variable (sha256Double : Sha256Double)

/-- The header without the solution. -/
def headerKey
    (templ : YaampJobTemplate) (nonce1 ntime nonce : CString) : CString :=
  headerFront sha256Double templ ++
    (stringBe ntime ++ (stringBe templ.nbits ++ (nonce1 ++ nonce)))

theorem headerOf_eq_headerKey
    (templ : YaampJobTemplate) (nonce1 ntime nonce equiSolution : CString) :
    headerOf sha256Double templ nonce1 ntime nonce equiSolution =
      headerKey sha256Double templ nonce1 ntime nonce ++ equiSolution := by
  rw [headerOf_eq, headerKey]
  simp only [List.append_assoc]

variable {templ : YaampJobTemplate} {nonce1 ntime nonce : CString}

theorem length_headerKey
    (aligned : AlignedTemplate templ)
    (key : CanonicalKey nonce1 ntime nonce) :
    (headerKey sha256Double templ nonce1 ntime nonce).length =
      144 + templ.prevhashBe.length + templ.extradataBe.length +
        nonce1.length := by
  simp only [headerKey, List.length_append, length_stringBe,
    length_headerFront _ aligned, key.ntime.1, key.nonce.1, aligned.nbits]
  omega

theorem headerKey_even
    (aligned : AlignedTemplate templ)
    (key : CanonicalKey nonce1 ntime nonce) :
    (headerKey sha256Double templ nonce1 ntime nonce).length % 2 = 0 := by
  have prevhash := aligned.prevhashBe
  have extradata := aligned.extradataBe
  have even := key.nonce1_lowerHex.2.1
  rw [length_headerKey sha256Double aligned key]
  omega

/-- The key part of the header, byte by byte. -/
theorem binlify_headerKey
    (aligned : AlignedTemplate templ)
    (key : CanonicalKey nonce1 ntime nonce) :
    binlify (headerKey sha256Double templ nonce1 ntime nonce) =
      binlify (headerFront sha256Double templ) ++
        (binlify (stringBe ntime) ++
          (binlify (stringBe templ.nbits) ++
            (binlify nonce1 ++ binlify nonce))) := by
  have prevhash := aligned.prevhashBe
  have extradata := aligned.extradataBe
  have front : (headerFront sha256Double templ).length % 2 = 0 := by
    rw [length_headerFront _ aligned]
    omega
  have reversed (s : CString) : (stringBe s).length % 2 = 0 := by
    rw [length_stringBe]
    omega
  rw [headerKey, binlify_append _ _ front, binlify_append _ _ (reversed _),
    binlify_append _ _ (reversed _),
    binlify_append _ _ key.nonce1_lowerHex.2.1]

/--
Under one template and one length of the nonce prefix, equal header bytes have
equal submitted fields.
-/
theorem key_eq_of_binlifyHeader_eq
    {otherNonce1 otherNtime otherNonce : CString}
    {equiSolution otherSolution : CString}
    (aligned : AlignedTemplate templ)
    (key : CanonicalKey nonce1 ntime nonce)
    (otherKey : CanonicalKey otherNonce1 otherNtime otherNonce)
    (lengths : otherNonce1.length = nonce1.length)
    (same :
      binlifyHeader
          (headerOf sha256Double templ otherNonce1 otherNtime otherNonce
            otherSolution) =
        binlifyHeader
          (headerOf sha256Double templ nonce1 ntime nonce equiSolution)) :
    otherNtime = ntime ∧ otherNonce = nonce ∧ otherNonce1 = nonce1 := by
  have prevhash := aligned.prevhashBe
  have extradata := aligned.extradataBe
  have short := key.nonce1_lowerHex.2.2
  have size : equiHeaderSize = 1487 := rfl
  have even := headerKey_even sha256Double aligned key
  have otherEven := headerKey_even sha256Double aligned otherKey
  have count := length_headerKey sha256Double aligned key
  have otherCount := length_headerKey sha256Double aligned otherKey
  rw [headerOf_eq_headerKey, headerOf_eq_headerKey] at same
  have bytes :=
    take_binlify_eq
      ((headerKey sha256Double templ nonce1 ntime nonce).length / 2)
      (by omega)
      (by rw [length_binlify, List.length_append]; omega)
      (by rw [length_binlify, List.length_append]; omega) same
  rw [binlify_append _ _ otherEven, binlify_append _ _ even,
    List.take_left' (by rw [length_binlify]; omega),
    List.take_left' (by rw [length_binlify]),
    binlify_headerKey sha256Double aligned otherKey,
    binlify_headerKey sha256Double aligned key,
    List.append_cancel_left_eq] at bytes
  obtain ⟨sameTime, rest⟩ :=
    List.append_inj bytes (by
      rw [length_binlify, length_binlify, length_stringBe, length_stringBe,
        otherKey.ntime.1, key.ntime.1])
  rw [List.append_cancel_left_eq] at rest
  obtain ⟨sameNonce1, sameNonce⟩ :=
    List.append_inj rest (by
      rw [length_binlify, length_binlify, lengths])
  obtain ⟨hex1, even1, -⟩ := key.nonce1_lowerHex
  obtain ⟨otherHex1, otherEven1, -⟩ := otherKey.nonce1_lowerHex
  refine ⟨?_, ?_, ?_⟩
  · have reversed :
        stringBe otherNtime = stringBe ntime :=
      binlify_injective_of_lowerHex
        (lowerHex_stringBe otherKey.ntime.2) (lowerHex_stringBe key.ntime.2)
        (by rw [length_stringBe]; omega) (by rw [length_stringBe]; omega)
        sameTime
    rw [← stringBe_stringBe otherNtime (by rw [otherKey.ntime.1]), reversed,
      stringBe_stringBe ntime (by rw [key.ntime.1])]
  · exact binlify_injective_of_lowerHex otherKey.nonce.2 key.nonce.2
      (by rw [otherKey.nonce.1]) (by rw [key.nonce.1]) sameNonce
  · exact binlify_injective_of_lowerHex otherHex1 hex1 otherEven1 even1
      sameNonce1

end Keys

end YiimpStratum.Submit
