import YiimpStratum.Library.CompactSize
import YiimpStratum.Submit.Layout
import YiimpStratum.Util.HexText
import YiimpStratum.Util.Words

/-!
# Headers of other algorithms

The header that `build_submit_values` makes from a template and a submission.
Its text has the hashes with their words reversed, and all of it is swapped
word by word afterwards.

The bytes are the fields of a block header in their usual order, with a third
hash for the algorithm `lbry` and two more for coins with contracts.

The digits of the template are in lower case, as the daemon and `sprintf` write
them, and those of the submission after `string_lower`.  The coinbase fits into
its buffers.
-/

namespace YiimpStratum.Standard

open YiimpStratum
open YiimpStratum.Util
open YiimpStratum.Template
open YiimpStratum.Submit

/-! ## Templates -/

/-- What `coind_create_template` reads for the header. -/
structure HeaderSource where
  symbol : CString
  version : LowerDigits 8
  nbits : LowerDigits 8
  prevhashHex : LowerDigits 64
  /-- it is only used for the coin `LBC` -/
  claimHex : LowerDigits 64
  /-- the members `stateroot` and `utxoroot`, if both are there -/
  roots : Option (LowerDigits 64 × LowerDigits 64)

/-- The fields of `YAAMP_JOB_TEMPLATE` that are hashed. -/
structure YaampJobTemplate where
  version : CString
  prevhashBe : CString
  claimBe : CString
  extradataBe : CString
  nbits : CString
  coinb1 : CString
  coinb2 : CString
  txsteps : List CString

/-- The end of `coind_create_template`; a zeroed array is an empty text. -/
def coindCreateTemplate (source : HeaderSource) (coinb1 coinb2 : CString)
    (txsteps : List CString) : YaampJobTemplate where
  version := source.version.text
  prevhashBe := serStringBe2 source.prevhashHex.text 8
  claimBe :=
    if source.symbol = "LBC".toList then serStringBe2 source.claimHex.text 8
    else []
  extradataBe :=
    match source.roots with
    | some (scRoot, scUtxo) =>
        serStringBe2 scRoot.text 8 ++ serStringBe2 scUtxo.text 8
    | none => []
  nbits := source.nbits.text
  coinb1 := coinb1
  coinb2 := coinb2
  txsteps := txsteps

/-! ## Submissions -/

/-- An entry of `g_algos`. -/
structure YaampAlgo where
  name : CString
  hashFunction : List UInt8 → Bytes32
  merkleFunc : Option Sha256Double

section Definitions

variable (sha256Double : Sha256Double) (algo : YaampAlgo)
variable (templ : YaampJobTemplate) (nonce1 nonce2 ntime nonce : CString)

def coinbaseOf : CString :=
  templ.coinb1 ++ nonce1 ++ nonce2 ++ templ.coinb2

/-- The variable `merkleroot`. -/
def merklerootOf : CString :=
  let coinbaseBin := binlify (coinbaseOf templ nonce1 nonce2)
  let merkleHash := algo.merkleFunc.getD sha256Double
  merkleWithFirst sha256Double templ.txsteps
    (sha256DoubleHashHex merkleHash coinbaseBin)

/-- The text `header`, and the number of words that are swapped. -/
def headerOf (merklerootBe : CString) : CString × Nat :=
  if algo.name = "lbry".toList then
    (templ.version ++ templ.prevhashBe ++ merklerootBe ++ templ.claimBe ++
      ntime ++ templ.nbits ++ nonce, 112 / 4)
  else if templ.extradataBe.length = 128 then
    (templ.version ++ templ.prevhashBe ++ merklerootBe ++ ntime ++
      templ.nbits ++ nonce ++ templ.extradataBe, 36)
  else
    (templ.version ++ templ.prevhashBe ++ merklerootBe ++ ntime ++
      templ.nbits ++ nonce, 20)

def buildSubmitValues : YaampJobValues :=
  let merkleroot := merklerootOf sha256Double algo templ nonce1 nonce2
  let merklerootBe := serStringBe merkleroot 8
  let header := headerOf algo templ ntime nonce merklerootBe
  let headerBe := serStringBe header.1 header.2
  let headerBin := binlifyHeader headerBe
  let hashBin :=
    algo.hashFunction (headerBin.toList.take (header.1.length / 2))
  let hashHex := hexlify hashBin.toList
  { coinbase := coinbaseOf templ nonce1 nonce2
    merklerootBe := merklerootBe
    header := header.1
    headerBe := headerBe
    headerBin := headerBin
    hashBin := hashBin
    hashHex := hashHex
    hashBe := stringBe hashHex }

end Definitions

/-! ## The header as it should be -/

/-- A submission to a job with a template. -/
structure Submission where
  source : HeaderSource
  coinb1 : CString
  coinb2 : CString
  txsteps : List CString
  nonce1 : CString
  nonce2 : CString
  ntime : LowerDigits 8
  nonce : LowerDigits 8

namespace Submission

variable (submission : Submission) (sha256Double : Sha256Double)
variable (algo : YaampAlgo)

def templ : YaampJobTemplate :=
  coindCreateTemplate submission.source submission.coinb1 submission.coinb2
    submission.txsteps

def values : YaampJobValues :=
  buildSubmitValues sha256Double algo submission.templ submission.nonce1
    submission.nonce2 submission.ntime.text submission.nonce.text

/-- The text of the merkle root. -/
def merkleroot : CString :=
  merklerootOf sha256Double algo submission.templ submission.nonce1
    submission.nonce2

/-- The text of the header, and the number of words. -/
def header : CString × Nat :=
  headerOf algo submission.templ submission.ntime.text submission.nonce.text
    (serStringBe (submission.merkleroot sha256Double algo) 8)

/-- The bytes that are hashed. -/
def hashed : List UInt8 :=
  (submission.values sha256Double algo).headerBin.toList.take
    ((submission.values sha256Double algo).header.length / 2)

/-- The hash behind the merkle root. -/
def claimBytes : List UInt8 :=
  if algo.name = "lbry".toList ∧ submission.source.symbol = "LBC".toList then
    submission.source.claimHex.bytes.reverse
  else []

/-- The hashes at the end. -/
def rootBytes : List UInt8 :=
  if algo.name = "lbry".toList then []
  else
    match submission.source.roots with
    | some (scRoot, scUtxo) =>
        scRoot.bytes.reverse ++ scUtxo.bytes.reverse
    | none => []

/-- The fields of the header in the order of a block. -/
def canonicalHeader : List UInt8 :=
  CompactSize.littleEndian 4 submission.source.version.number ++
    submission.source.prevhashHex.bytes.reverse ++
      binlify (submission.merkleroot sha256Double algo) ++
        submission.claimBytes algo ++
          CompactSize.littleEndian 4 submission.ntime.number ++
            CompactSize.littleEndian 4 submission.source.nbits.number ++
              CompactSize.littleEndian 4 submission.nonce.number ++
                submission.rootBytes algo

/-- The length of the header. -/
def headerLength : Nat :=
  if algo.name = "lbry".toList then
    if submission.source.symbol = "LBC".toList then 112 else 80
  else if submission.source.roots.isSome then 144
  else 80

end Submission

/-! ## Fields -/

/-- A number of eight digits, swapped. -/
theorem binlify_word (digits : LowerDigits 8) :
    binlify (serStringBe digits.text 1) =
      CompactSize.littleEndian 4 digits.number := by
  have even : 8 % 2 = 0 := rfl
  have length : digits.bytes.reverse.length = 4 := by
    rw [List.length_reverse, LowerDigits.length_bytes even]
  have value := CompactSize.littleEndian_value length
  rw [List.reverse_reverse, LowerDigits.value_bytes even] at value
  rw [serStringBe_word digits.length_text, LowerDigits.binlify_stringBe even,
    value]

/-- A hash with its words reversed, swapped. -/
theorem binlify_hash (digits : LowerDigits 64) :
    binlify (serStringBe (serStringBe2 digits.text 8) 8) =
      digits.bytes.reverse := by
  rw [serStringBe_serStringBe2 digits.length_text,
    LowerDigits.binlify_stringBe rfl]

/-- The array has the bytes of a text that fits into it. -/
theorem take_binlifyHeader {hex : CString}
    (fits : hex.length / 2 ≤ equiHeaderSize) :
    (binlifyHeader hex).toList.take (hex.length / 2) = binlify hex := by
  apply List.ext_getElem
  · rw [List.length_take, Vector.length_toList, length_binlify,
      Nat.min_eq_left fits]
  · intro i leftBelow rightBelow
    rw [length_binlify] at rightBelow
    have entry := binlifyHeader_get hex ⟨i, rightBelow.trans_le fits⟩
    rw [List.getD_eq_getElem _ _ (by rwa [length_binlify])] at entry
    rw [List.getElem_take, Vector.getElem_toList]
    exact entry

/-- Words behind the end of the text add nothing. -/
theorem take_swapped {count extra : Nat} {header : CString}
    (length : header.length = count * 8) (fits : count * 4 ≤ equiHeaderSize) :
    (binlifyHeader (serStringBe header (count + extra))).toList.take
        (header.length / 2) =
      binlify (serStringBe header count) := by
  have swapped := length_serStringBe length
  have padded := serStringBe_append length [] extra
  rw [List.append_nil, serStringBe_nil, List.append_nil] at padded
  rw [padded, length, ← swapped]
  refine take_binlifyHeader ?_
  rw [swapped]
  omega

/-- A header is swapped and decoded field by field. -/
theorem binlify_swap_append {count others : Nat} {field : CString}
    (length : field.length = count * 8) (rest : CString) :
    binlify (serStringBe (field ++ rest) (count + others)) =
      binlify (serStringBe field count) ++
        binlify (serStringBe rest others) := by
  have swapped := length_serStringBe length
  rw [serStringBe_append length, binlify_append _ _ (by rw [swapped]; omega)]

/-! ## The bytes of the header -/

section Header

variable (sha256Double : Sha256Double) (algo : YaampAlgo)
variable (submission : Submission)

theorem length_merkleroot :
    (submission.merkleroot sha256Double algo).length = 8 * 8 := by
  rw [Submission.merkleroot, merklerootOf]
  exact length_merkleWithFirst _ _ _ (length_sha256DoubleHashHex _ _)

theorem length_hash (digits : LowerDigits 64) :
    (serStringBe2 digits.text 8).length = 8 * 8 :=
  length_serStringBe2 digits.length_text

theorem binlify_merkleroot :
    binlify
        (serStringBe
          (serStringBe (submission.merkleroot sha256Double algo) 8) 8) =
      binlify (submission.merkleroot sha256Double algo) := by
  rw [serStringBe_serStringBe (length_merkleroot sha256Double algo submission)]

/-- The text with a claim and roots, which may both be empty. -/
def headerText (claim roots : CString) : CString :=
  submission.source.version.text ++
    (serStringBe2 submission.source.prevhashHex.text 8 ++
      (serStringBe (submission.merkleroot sha256Double algo) 8 ++
        (claim ++
          (submission.ntime.text ++
            (submission.source.nbits.text ++
              (submission.nonce.text ++ roots))))))

variable {claim roots : CString} {claimWords rootWords : Nat}

theorem length_headerText (claimLength : claim.length = claimWords * 8)
    (rootsLength : roots.length = rootWords * 8) :
    (headerText sha256Double algo submission claim roots).length =
      (1 + (8 + (8 + (claimWords + (1 + (1 + (1 + rootWords))))))) * 8 := by
  have merkleroot := length_serStringBe
    (length_merkleroot sha256Double algo submission)
  have prevhash := length_hash submission.source.prevhashHex
  have version := submission.source.version.length_text
  have nbits := submission.source.nbits.length_text
  have ntime := submission.ntime.length_text
  have nonce := submission.nonce.length_text
  simp only [headerText, List.length_append]
  omega

/-- Each field in its own order of bytes. -/
theorem binlify_headerText (claimLength : claim.length = claimWords * 8) :
    binlify
        (serStringBe (headerText sha256Double algo submission claim roots)
          (1 + (8 + (8 + (claimWords + (1 + (1 + (1 + rootWords)))))))) =
      CompactSize.littleEndian 4 submission.source.version.number ++
        (submission.source.prevhashHex.bytes.reverse ++
          (binlify (submission.merkleroot sha256Double algo) ++
            (binlify (serStringBe claim claimWords) ++
              (CompactSize.littleEndian 4 submission.ntime.number ++
                (CompactSize.littleEndian 4
                    submission.source.nbits.number ++
                  (CompactSize.littleEndian 4 submission.nonce.number ++
                    binlify (serStringBe roots rootWords))))))) := by
  have merkleroot := length_serStringBe
    (length_merkleroot sha256Double algo submission)
  rw [headerText, binlify_swap_append submission.source.version.length_text,
    binlify_swap_append (length_hash submission.source.prevhashHex),
    binlify_swap_append merkleroot, binlify_swap_append claimLength,
    binlify_swap_append submission.ntime.length_text,
    binlify_swap_append submission.source.nbits.length_text,
    binlify_swap_append submission.nonce.length_text, binlify_word,
    binlify_word, binlify_word, binlify_word, binlify_hash,
    binlify_merkleroot]

theorem hashed_eq :
    submission.hashed sha256Double algo =
      (binlifyHeader
          (serStringBe (submission.header sha256Double algo).1
            (submission.header sha256Double algo).2)).toList.take
        ((submission.header sha256Double algo).1.length / 2) :=
  rfl

variable (claim roots claimWords rootWords) in
/-- The array behind a text of this form. -/
theorem hashed_of_header (extra : Nat)
    (isHeader :
      submission.header sha256Double algo =
        (headerText sha256Double algo submission claim roots,
          1 + (8 + (8 + (claimWords + (1 + (1 + (1 + rootWords)))))) +
            extra))
    (claimLength : claim.length = claimWords * 8)
    (rootsLength : roots.length = rootWords * 8)
    (short : claimWords + rootWords ≤ 16)
    (isClaim :
      binlify (serStringBe claim claimWords) = submission.claimBytes algo)
    (areRoots :
      binlify (serStringBe roots rootWords) = submission.rootBytes algo) :
    submission.hashed sha256Double algo =
      submission.canonicalHeader sha256Double algo := by
  have length :=
    length_headerText sha256Double algo submission claimLength rootsLength
  have size : equiHeaderSize = 1487 := rfl
  rw [hashed_eq, isHeader, take_swapped length (by omega),
    binlify_headerText sha256Double algo submission claimLength,
    isClaim, areRoots, Submission.canonicalHeader]
  simp only [List.append_assoc]

/-! ## The layouts -/

variable {algo} {submission}

/-- The third hash of the coin `LBC`. -/
theorem hashed_of_claim (lbry : algo.name = "lbry".toList)
    (claimed : submission.source.symbol = "LBC".toList) :
    submission.hashed sha256Double algo =
      submission.canonicalHeader sha256Double algo := by
  refine hashed_of_header sha256Double algo submission
    (serStringBe2 submission.source.claimHex.text 8) [] 8 0 0 ?_
    (length_hash _) rfl (by decide) ?_ ?_
  · rw [Submission.header, headerOf, if_pos lbry, headerText,
      Submission.templ, coindCreateTemplate, if_pos claimed]
    simp only [List.append_assoc, List.append_nil]
  · rw [binlify_hash, Submission.claimBytes, if_pos ⟨lbry, claimed⟩]
  · rw [Submission.rootBytes, if_pos lbry]
    rfl

/-- Other coins of the algorithm have no third hash. -/
theorem hashed_of_unclaimed (lbry : algo.name = "lbry".toList)
    (unclaimed : submission.source.symbol ≠ "LBC".toList) :
    submission.hashed sha256Double algo =
      submission.canonicalHeader sha256Double algo := by
  refine hashed_of_header sha256Double algo submission [] [] 0 0 8 ?_ rfl
    rfl (by decide) ?_ ?_
  · rw [Submission.header, headerOf, if_pos lbry, headerText,
      Submission.templ, coindCreateTemplate, if_neg unclaimed]
    simp only [List.append_assoc, List.append_nil, List.nil_append]
  · rw [Submission.claimBytes, if_neg fun both => unclaimed both.2]
    rfl
  · rw [Submission.rootBytes, if_pos lbry]
    rfl

/-- The two hashes at the end. -/
theorem hashed_of_roots {scRoot scUtxo : LowerDigits 64}
    (other : algo.name ≠ "lbry".toList)
    (sidechain : submission.source.roots = some (scRoot, scUtxo)) :
    submission.hashed sha256Double algo =
      submission.canonicalHeader sha256Double algo := by
  have extradata :
      submission.templ.extradataBe =
        serStringBe2 scRoot.text 8 ++ serStringBe2 scUtxo.text 8 := by
    rw [Submission.templ, coindCreateTemplate, sidechain]
  have length : submission.templ.extradataBe.length = 16 * 8 := by
    rw [extradata, List.length_append, length_hash, length_hash]
  refine hashed_of_header sha256Double algo submission []
    submission.templ.extradataBe 0 (8 + 8) 0 ?_ rfl length (by decide) ?_ ?_
  · rw [Submission.header, headerOf, if_neg other, if_pos length, headerText]
    simp only [List.append_assoc, List.nil_append]
    rfl
  · rw [Submission.claimBytes, if_neg fun both => other both.1]
    rfl
  · rw [extradata, binlify_swap_append (length_hash scRoot), binlify_hash,
      binlify_hash, Submission.rootBytes, if_neg other, sidechain]

/-- The usual header. -/
theorem hashed_of_plain (other : algo.name ≠ "lbry".toList)
    (plain : submission.source.roots = none) :
    submission.hashed sha256Double algo =
      submission.canonicalHeader sha256Double algo := by
  have extradata : submission.templ.extradataBe = [] := by
    rw [Submission.templ, coindCreateTemplate, plain]
  refine hashed_of_header sha256Double algo submission [] [] 0 0 0 ?_ rfl
    rfl (by decide) ?_ ?_
  · rw [Submission.header, headerOf, if_neg other,
      if_neg (by rw [extradata]; decide), headerText]
    simp only [List.append_assoc, List.nil_append, List.append_nil]
    rfl
  · rw [Submission.claimBytes, if_neg fun both => other both.1]
    rfl
  · rw [Submission.rootBytes, if_neg other, plain]
    rfl

end Header

/-! ## Every header -/

section Every

variable (sha256Double : Sha256Double) (algo : YaampAlgo)
variable (submission : Submission)

theorem length_canonicalHeader :
    (submission.canonicalHeader sha256Double algo).length =
      submission.headerLength algo := by
  have hash (digits : LowerDigits 64) : digits.bytes.reverse.length = 32 := by
    rw [List.length_reverse, LowerDigits.length_bytes rfl]
  have merkleroot :
      (binlify (submission.merkleroot sha256Double algo)).length = 32 := by
    rw [length_binlify, length_merkleroot]
  simp only [Submission.canonicalHeader, List.length_append,
    CompactSize.length_littleEndian, hash, merkleroot,
    Submission.claimBytes, Submission.rootBytes, Submission.headerLength]
  by_cases lbry : algo.name = "lbry".toList
  · by_cases claimed : submission.source.symbol = "LBC".toList
    · rw [if_pos ⟨lbry, claimed⟩, if_pos lbry, if_pos lbry, if_pos claimed,
        hash]
      rfl
    · rw [if_neg fun both => claimed both.2, if_pos lbry, if_pos lbry,
        if_neg claimed]
      rfl
  · rw [if_neg fun both => lbry both.1, if_neg lbry, if_neg lbry]
    cases submission.source.roots with
    | none => rfl
    | some roots =>
        simp only [List.length_append, hash]
        rfl

/--
The bytes that are hashed are the fields of the header in their order, for
texts of lower-case digits and a coinbase that has room in its buffers.
-/
theorem hashed_eq_canonicalHeader :
    submission.hashed sha256Double algo =
        submission.canonicalHeader sha256Double algo ∧
      (submission.hashed sha256Double algo).length =
        submission.headerLength algo := by
  have bytes :
      submission.hashed sha256Double algo =
        submission.canonicalHeader sha256Double algo := by
    by_cases lbry : algo.name = "lbry".toList
    · by_cases claimed : submission.source.symbol = "LBC".toList
      · exact hashed_of_claim sha256Double lbry claimed
      · exact hashed_of_unclaimed sha256Double lbry claimed
    · rcases isRoots : submission.source.roots with _ | ⟨scRoot, scUtxo⟩
      · exact hashed_of_plain sha256Double lbry isRoots
      · exact hashed_of_roots sha256Double lbry isRoots
  exact ⟨bytes, bytes ▸ length_canonicalHeader sha256Double algo submission⟩

end Every

end YiimpStratum.Standard
