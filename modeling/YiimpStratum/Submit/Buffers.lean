import YiimpStratum.Submit.History

/-!
# Buffers of the Equihash path

The writes of the string functions on the way from the daemon's answer to a
recorded share, each with the declared size of its destination.  A write by
`string_be` or `binlify` has no terminator; `hexlify`, `sprintf` and `strcpy`
store one.

The string of the compact target has eight digits, and three functions reverse
it into an array of five characters.  So a write that does not fit is reached
in every run of the path.
-/

namespace YiimpStratum

/-! ## Writes to arrays of declared size -/

/-- A write, by its array and the elements stored from the start of it. -/
structure Write (Destination : Type*) where
  destination : Destination
  stored : Nat

namespace Write

variable {Destination : Type*} (size : Destination → Nat)

/-- The array is declared with the elements that the write stores. -/
def Fits (write : Write Destination) : Prop :=
  write.stored ≤ size write.destination

instance (write : Write Destination) : Decidable (write.Fits size) :=
  inferInstanceAs (Decidable (_ ≤ _))

/-- Every write of a run fits. -/
def AllFit (writes : List (Write Destination)) : Prop :=
  ∀ write ∈ writes, write.Fits size

instance (writes : List (Write Destination)) :
    Decidable (AllFit size writes) :=
  List.decidableBAll _ _

/-- The writes that append parts to a string, each with its terminator. -/
def appends {Element : Type*} (destination : Destination) :
    List Element → List (List Element) → List (Write Destination)
  | _, [] => []
  | start, part :: parts =>
      { destination := destination
        stored := (start ++ part).length + 1 } ::
        appends destination (start ++ part) parts

end Write

end YiimpStratum

namespace YiimpStratum.Submit

open YiimpStratum
open YiimpStratum.Util
open YiimpStratum.Template
open YiimpStratum.Equihash

/-! ## Destinations -/

/-- The destinations of the string functions, function by function. -/
inductive Destination where
  -- `coind_create_template` and `target2bits`
  | targetRev
  | targetBin
  | pn
  | bitsStr
  | nbitsFromTarget
  | extradataHex
  | extradataBe
  -- `coind_create_job`
  | bits
  | jobName
  -- `client_submit_equi` and `bits2target`
  | revNtime
  | ntime
  | nonce
  | equiSolution
  | targetStr
  | targetStrBe
  | tmpBitsStr
  | tmpBits
  | outTargetRev
  | tmpTarget
  -- `build_submit_values_equi`
  | coinbase
  | coinbaseBin
  | doublehash
  | merklerootBe
  | revVersion
  | builtRevNtime
  | revNbits
  | header
  | headerBe
  | headerBin
  | hashHex
  | hashBe
  -- `client_do_submit`
  | targetAux
  | countHex
  | blockHex (size : Nat)
  | doublehash2
  | hash1
  -- `share_add`
  | shareExtranonce2
  | shareNtime
  | shareNonce
  | shareNonce1
  deriving DecidableEq

namespace Destination

/-- The number of elements of the declaration. -/
def size : Destination → Nat
  | targetRev => 65
  | targetBin => 32
  | pn => 32
  | bitsStr => 5
  | nbitsFromTarget => 32
  | extradataHex => 512
  | extradataBe => 512
  | bits => 4
  | jobName => 1024
  | revNtime => 9
  | ntime => 9
  | nonce => 65
  | equiSolution => 1344 * 2 + 64
  | targetStr => 65
  | targetStrBe => 65
  | tmpBitsStr => 5
  | tmpBits => 4
  | outTargetRev => 65
  | tmpTarget => 65
  | coinbase => 16 * 1024
  | coinbaseBin => 1024
  | doublehash => 128
  | merklerootBe => 1024
  | revVersion => 32
  | builtRevNtime => 32
  | revNbits => 32
  | header => equiHeaderSize * 2 + 1
  | headerBe => equiHeaderSize * 2 + 1
  | headerBin => equiHeaderSize
  | hashHex => 1024
  | hashBe => 1024
  | targetAux => 1024
  | countHex => 8
  | blockHex size => size
  | doublehash2 => 128
  | hash1 => 1024
  | shareExtranonce2 => 64
  | shareNtime => 32
  | shareNonce => 64
  | shareNonce1 => 64

end Destination

/-! ## Writes of the string functions -/

abbrev StringWrite := Write Destination

def stringBeTo (output : Destination) (input : CString) : StringWrite where
  destination := output
  stored := (stringBe input).length

def hexlifyTo (hex : Destination) (bin : List UInt8) : StringWrite where
  destination := hex
  stored := (hexlify bin).length + 1

def binlifyTo (bin : Destination) (hex : CString) : StringWrite where
  destination := bin
  stored := (binlify hex).length

/-- `sprintf` and `strcpy`, with the complete text. -/
def sprintfTo (output : Destination) (text : CString) : StringWrite where
  destination := output
  stored := text.length + 1

/-- `strncpy`, which fills up to its count. -/
def strncpyTo (output : Destination) (count : Nat) : StringWrite where
  destination := output
  stored := count

/-- `AllFit` for the declared sizes. -/
abbrev Safe (writes : List StringWrite) : Prop :=
  Write.AllFit Destination.size writes

/-! ## The functions of the path -/

/--
The conversion of the target in `coind_create_template`.  The value that
`target2bits` returns only counts with its four bytes.
-/
def targetConversionWrites
    (bitsBin : Vector UInt8 4) (gbt : GetBlockTemplate) :
    List StringWrite :=
  let targetRev := stringBe gbt.target.text
  let bitsStr := hexlify bitsBin.toList
  let extradataHex := optionalText gbt.finalsaplingroothash
  [stringBeTo .targetRev gbt.target.text,
    binlifyTo .targetBin targetRev,
    binlifyTo .pn targetRev,
    hexlifyTo .bitsStr bitsBin.toList,
    stringBeTo .nbitsFromTarget bitsStr,
    sprintfTo .extradataHex extradataHex,
    stringBeTo .extradataBe extradataHex]

/-- The conversion of `templ->nbits` to the variable `bits`. -/
def bitsWrites (nbits : CString) : List StringWrite :=
  [stringBeTo .bitsStr nbits, binlifyTo .bits (stringBe nbits)]

/-- The symbol of a coin, in its array of 256 characters. -/
structure CoindSymbol where
  text : CString
  length_lt : text.length < 256

/-- `coind_create_job`, when a job is added. -/
def coindCreateJobWrites
    (symbol : CoindSymbol) (templ : YaampJobTemplate) : List StringWrite :=
  bitsWrites templ.nbits ++ [sprintfTo .jobName symbol.text]

def shareAddWrites (client : YaampClient) (request : SubmitRequest) :
    List StringWrite :=
  [sprintfTo .shareExtranonce2 [],
    sprintfTo .shareNtime request.ntime,
    sprintfTo .shareNonce request.nonce,
    sprintfTo .shareNonce1 client.extranonce1.text]

/-- The conversion `%02x`. -/
def hex2 (number : Nat) : CString :=
  let digits := hexNumber number
  if digits.length < 2 then '0' :: digits else digits

/-- The variable `count_hex`. -/
def countHexOf (txcount : Nat) : CString :=
  if txcount ≤ 252 then
    hex2 (txcount % 256)
  else
    ['f', 'd'] ++ hex2 (txcount % 256) ++ hex2 (txcount / 256)

/--
A merge-mined coin: the string `aux.target`, the comparison with it, the vector
of `coind_aux_merkle_branch` and the number `aux.index`.
-/
structure AuxCoin where
  target : CString
  target_length_lt : target.length < 1024
  meetsTarget : Bool
  branch : List CString
  index : Nat

/--
What the submission path reads beside the job and the request, with the arrays
that `bits2target` fills for the debug output.
-/
structure SubmitContext where
  debuglogHash : Bool
  nbitsFromTarget : HexDigits 8
  netTargetBin : Vector UInt8 32
  fromTargetBin : Vector UInt8 32
  auxs : List AuxCoin
  blockFound : Bool
  pos : Bool
  accepted : Bool

section Definitions

variable (env : Environment)

def buildSubmitValuesEquiWrites
    (templ : YaampJobTemplate) (client : YaampClient)
    (request : SubmitRequest) : List StringWrite :=
  let values := submitvalues env templ client request
  [sprintfTo .coinbase templ.coinbase,
    binlifyTo .coinbaseBin values.coinbase,
    hexlifyTo .doublehash
      (env.sha256Double (binlify values.coinbase)).toList,
    sprintfTo .merklerootBe values.merklerootBe,
    stringBeTo .revVersion templ.version,
    stringBeTo .builtRevNtime request.ntime,
    stringBeTo .revNbits templ.nbits,
    sprintfTo .header values.header,
    sprintfTo .headerBe values.headerBe,
    binlifyTo .headerBin values.headerBe,
    hexlifyTo .hashHex values.hashBin.toList,
    stringBeTo .hashBe values.hashHex]

/-- The reversed compact target and `bits2target`, printed for debugging. -/
def tmpTargetWrites (nbits : CString) (outTargetBin : Vector UInt8 32) :
    List StringWrite :=
  [stringBeTo .tmpBitsStr nbits,
    binlifyTo .tmpBits (stringBe nbits),
    hexlifyTo .outTargetRev outTargetBin.toList,
    stringBeTo .tmpTarget (hexlify outTargetBin.toList)]

/-- The conversion of the targets in `client_submit_equi`. -/
def targetWrites
    (context : SubmitContext) (templ : YaampJobTemplate)
    (client : YaampClient) : List StringWrite :=
  let targetStr := hexlify (diffToTargetEqui client.difficultyActual)
  [hexlifyTo .targetStr (diffToTargetEqui client.difficultyActual),
    stringBeTo .targetStrBe targetStr] ++
    (if context.debuglogHash then
      tmpTargetWrites templ.nbits context.netTargetBin ++
        tmpTargetWrites context.nbitsFromTarget.text context.fromTargetBin
    else
      []) ++
    bitsWrites templ.nbits

/-- `block_size`, the size of the allocated `block_hex`. -/
def blockSize (templ : YaampJobTemplate) : Nat :=
  32 * 1024 + (templ.txdata.map List.length).sum

/-- The block of a merge-mined coin. -/
def auxWrites
    (templ : YaampJobTemplate) (values : YaampJobValues) (aux : AuxCoin) :
    List StringWrite :=
  binlifyTo .targetAux aux.target ::
    if aux.meetsTarget then
      Write.appends (.blockHex (blockSize templ)) []
        ([values.coinbase, values.hashBe, hex2 (templ.txsteps.length % 256)] ++
          templ.txsteps ++
            [List.replicate 8 '0', hex2 (aux.branch.length % 256)] ++
              aux.branch ++
                [hex2 (aux.index % 256) ++ List.replicate 6 '0',
                  values.headerBe])
    else
      []

/-- The block itself. -/
def blockWrites
    (context : SubmitContext) (templ : YaampJobTemplate)
    (values : YaampJobValues) : List StringWrite :=
  let countHex := countHexOf templ.txcount
  sprintfTo .countHex countHex ::
    Write.appends (.blockHex (blockSize templ)) []
      ((values.headerBe ++ countHex ++ values.coinbase) :: templ.txdata ++
        if context.pos then [['0', '0']] else [])

def clientDoSubmitWrites
    (context : SubmitContext) (templ : YaampJobTemplate)
    (values : YaampJobValues) : List StringWrite :=
  if context.blockFound then
    []
  else
    bitsWrites templ.nbits ++
      context.auxs.flatMap (auxWrites templ values) ++
        if hashInt values.hashBin ≤ coinTarget (bitsOfNbits templ.nbits) then
          blockWrites context templ values ++
            if context.accepted then
              let hash :=
                env.sha256Double
                  (values.headerBin.toList.take
                    (values.headerBe.length / 2))
              [hexlifyTo .doublehash2 hash.toList,
                stringBeTo .hash1 (hexlify hash.toList)]
            else
              []
        else
          []

/-- `client_submit_equi` for a live job, up to `share_add`. -/
def liveJobWrites
    (context : SubmitContext) (server : Server) (job : YaampJob)
    (client : YaampClient) (now : Int) (request : SubmitRequest) :
    List StringWrite :=
  if !nonceAccepted request.nonce then
    []
  else if (ntimeError env.config job.templ now request.ntime).isSome then
    []
  else if isDuplicate server job client request then
    []
  else
    let values := submitvalues env job.templ client request
    buildSubmitValuesEquiWrites env job.templ client request ++
      if !verifyEH env.blake2b (ehHdr values.headerBin)
          (ehSln values.headerBin) then
        []
      else
        targetWrites context job.templ client ++
          if lowDifficulty client job.templ values.hashBin then
            []
          else
            clientDoSubmitWrites env context job.templ values

/-- `client_submit_equi` -/
def clientSubmitEquiWrites
    (context : SubmitContext) (server : Server) (client : YaampClient)
    (now : Int) (request : SubmitRequest) : List StringWrite :=
  [strncpyTo .revNtime 8,
    stringBeTo .ntime request.revNtime,
    strncpyTo .nonce 64,
    strncpyTo .equiSolution (1344 * 2 + 3 * 2)] ++
    match jobFind server.jobs (htoi request.jobidParam) with
    | none => shareAddWrites client request
    | some job =>
        if job.deleted then
          []
        else
          liveJobWrites env context server job client now request ++
            shareAddWrites client request

end Definitions

/-! ## What each function stores -/

section Fits

variable {templ : YaampJobTemplate}

theorem stringBeTo_fits_iff (output : Destination) (input : CString) :
    (stringBeTo output input).Fits Destination.size ↔
      2 * (input.length / 2) ≤ output.size := by
  rw [Write.Fits, stringBeTo, length_stringBe]

theorem hexlifyTo_fits_iff (hex : Destination) (bin : List UInt8) :
    (hexlifyTo hex bin).Fits Destination.size ↔
      2 * bin.length + 1 ≤ hex.size := by
  rw [Write.Fits, hexlifyTo, length_hexlify]

theorem binlifyTo_fits_iff (bin : Destination) (hex : CString) :
    (binlifyTo bin hex).Fits Destination.size ↔
      hex.length / 2 ≤ bin.size := by
  rw [Write.Fits, binlifyTo, length_binlify]

theorem sprintfTo_fits_iff (output : Destination) (text : CString) :
    (sprintfTo output text).Fits Destination.size ↔
      text.length + 1 ≤ output.size :=
  Iff.rfl

/-- Only the writes to `bits_str` overrun their destination. -/
def OnlyBitsStrOverrun (writes : List StringWrite) : Prop :=
  ∀ write ∈ writes,
    write.Fits Destination.size ↔ write.destination ≠ .bitsStr

/-- The conversion of the target stores nine characters in `bits_str`. -/
theorem targetConversion_overrun
    (bitsBin : Vector UInt8 4) (gbt : GetBlockTemplate) :
    OnlyBitsStrOverrun (targetConversionWrites bitsBin gbt) ∧
      hexlifyTo .bitsStr bitsBin.toList ∈
        targetConversionWrites bitsBin gbt := by
  have reserved := length_optionalText gbt.finalsaplingroothash
  have extradata :
      (optionalText gbt.finalsaplingroothash).length ≤ 64 := by
    omega
  refine ⟨?_, by simp [targetConversionWrites]⟩
  simp only [OnlyBitsStrOverrun, targetConversionWrites, List.forall_mem_cons,
    stringBeTo_fits_iff, binlifyTo_fits_iff, hexlifyTo_fits_iff,
    sprintfTo_fits_iff, length_stringBe, length_hexlify,
    Vector.length_toList, gbt.target.length_text]
  simp [stringBeTo, binlifyTo, hexlifyTo, sprintfTo, Destination.size]
  omega

/-- The eight digits of `nbits` overrun `bits_str`. -/
theorem bits_overrun {nbits : CString} (digits : nbits.length = 8) :
    OnlyBitsStrOverrun (bitsWrites nbits) ∧
      stringBeTo .bitsStr nbits ∈ bitsWrites nbits := by
  refine ⟨?_, by simp [bitsWrites]⟩
  simp only [OnlyBitsStrOverrun, bitsWrites, List.forall_mem_cons,
    stringBeTo_fits_iff, binlifyTo_fits_iff, length_stringBe, digits]
  simp [stringBeTo, binlifyTo, Destination.size]

/-- Job creation stores eight characters in `bits_str`. -/
theorem coindCreateJob_overrun
    (symbol : CoindSymbol) (digits : templ.nbits.length = 8) :
    OnlyBitsStrOverrun (coindCreateJobWrites symbol templ) ∧
      stringBeTo .bitsStr templ.nbits ∈
        coindCreateJobWrites symbol templ := by
  obtain ⟨bits, listed⟩ := bits_overrun digits
  refine ⟨?_, List.mem_append_left _ listed⟩
  intro write inWrites
  rcases List.mem_append.mp inWrites with inBits | inName
  · exact bits write inBits
  · have short := symbol.length_lt
    have room : symbol.text.length + 1 ≤ 1024 := by
      omega
    rw [List.mem_singleton.mp inName, sprintfTo_fits_iff]
    exact iff_of_true room (by simp [sprintfTo])

/-! ## The number of transactions -/

theorem length_hex2_le_iff {number width : Nat} (wide : 2 ≤ width) :
    (hex2 number).length ≤ width ↔ number < 16 ^ width := by
  have digits :
      (hexNumber number).length ≤ width ↔ number < 16 ^ width := by
    rw [hexNumber, List.length_map]
    exact Nat.length_toDigits_le_iff (by decide) (by omega)
  rw [← digits]
  simp only [hex2]
  split
  · rw [List.length_cons]
    omega
  · rfl

theorem two_le_length_hex2 (number : Nat) : 2 ≤ (hex2 number).length := by
  have digits : 0 < (hexNumber number).length := by
    rw [hexNumber, List.length_map]
    exact Nat.length_toDigits_pos
  simp only [hex2]
  split
  · rw [List.length_cons]
    omega
  · omega

theorem toLower_digitChar : ∀ digit : Fin 16,
    (Nat.digitChar digit).toLower = hexDigit digit := by
  decide

/-- Below 256 the conversion `%02x` is that of a byte. -/
theorem hex2_of_lt {number : Nat} (small : number < 256) :
    hex2 number = hexByte (UInt8.ofNat number) := by
  have value : (UInt8.ofNat number).toNat = number := by
    rw [UInt8.toNat_ofNat']
    omega
  have lower : ∀ digit, digit < 16 →
      (Nat.digitChar digit).toLower = hexDigit digit := fun digit bound =>
    toLower_digitChar ⟨digit, bound⟩
  rw [hex2, hexNumber, hexByte, value]
  by_cases single : number < 16
  · rw [Nat.toDigits_of_lt_base single, Nat.div_eq_of_lt single,
      Nat.mod_eq_of_lt single, List.map_singleton, lower number single]
    rfl
  · rw [Nat.toDigits_of_base_le (by decide) (by omega),
      Nat.toDigits_of_lt_base (by omega : number / 16 < 16),
      List.map_append, List.map_singleton, List.map_singleton,
      lower _ (by omega), lower _ (Nat.mod_lt number (by decide))]
    rfl

end Fits

/-! ## The whole path -/

section Path

variable {env : Environment} {coind : YaampCoind} {created now : Int}
variable {gbt : GetBlockTemplate} {templ : YaampJobTemplate}

/--
From the answer of the daemon over the job made from it to a submission, every
write of a string function fits its destination.
-/
structure LengthSafe
    (env : Environment) (bitsBin : Vector UInt8 4) (symbol : CoindSymbol)
    (gbt : GetBlockTemplate) (templ : YaampJobTemplate)
    (context : SubmitContext) (server : Server) (client : YaampClient)
    (now : Int) (request : SubmitRequest) : Prop where
  conversion : Safe (targetConversionWrites bitsBin gbt)
  creation : Safe (coindCreateJobWrites symbol templ)
  submission :
    Safe (clientSubmitEquiWrites env context server client now request)

/--
No accepted answer of the daemon and no submission is safe: converting the
target and creating the job both overrun `bits_str`.
-/
theorem length_safe_never
    (accepted :
      coindCreateTemplate env.sha256Double (env.coinbaseCreate coind)
          env.config coind created gbt =
        some templ)
    (bitsBin : Vector UInt8 4) (symbol : CoindSymbol)
    (context : SubmitContext) (server : Server) (client : YaampClient)
    (now : Int) (request : SubmitRequest) :
    ¬ LengthSafe env bitsBin symbol gbt templ context server client now
      request := by
  intro safe
  have digits := (coindCreateTemplate_aligned accepted).nbits
  obtain ⟨overrun, listed⟩ := coindCreateJob_overrun symbol digits
  exact (overrun _ listed).mp (safe.creation _ listed) rfl

/-- A merge-mined coin alone in the table, with its target met. -/
def sampleAux : AuxCoin where
  target := List.replicate 64 'f'
  target_length_lt := by decide
  meetsTarget := true
  branch := []
  index := 0

/-- The start of a submission path with one merge-mined coin. -/
def sampleContext : SubmitContext where
  debuglogHash := false
  nbitsFromTarget := (sampleGbt []).bits
  netTargetBin := Vector.replicate 32 0
  fromTargetBin := Vector.replicate 32 0
  auxs := [sampleAux]
  blockFound := false
  pos := false
  accepted := true

def sampleSymbol : CoindSymbol where
  text := ['C', 'O', 'I', 'N']
  length_lt := by decide

/-- The sample block, and a submission before any job is listed. -/
theorem length_safe_never_sample :
    ¬ LengthSafe sampleEnvironment (Vector.replicate 4 0x0f) sampleSymbol
      (sampleGbt []) (sampleTempl []) sampleContext Server.initial
      sampleClient 0 sampleRequest := by
  have accepted :
      coindCreateTemplate sampleEnvironment.sha256Double
          (sampleEnvironment.coinbaseCreate sampleCoind)
          sampleEnvironment.config sampleCoind 0 (sampleGbt []) =
        some (sampleTempl []) := by
    simp only [sampleEnvironment, sampleTempl_created]
  exact
    length_safe_never accepted (Vector.replicate 4 0x0f) sampleSymbol
      sampleContext Server.initial sampleClient 0 sampleRequest

/-- Nine characters are stored in the five of `bits_str`. -/
theorem bits_str_overrun_at_sample :
    ¬ LengthSafe sampleEnvironment (Vector.replicate 4 0x0f) sampleSymbol
      (sampleGbt []) (sampleTempl []) sampleContext sampleServer
      sampleClient 0 (sampleSubmission ['1'] []) := by
  intro safe
  obtain ⟨overrun, listed⟩ :=
    targetConversion_overrun (Vector.replicate 4 0x0f) (sampleGbt [])
  exact (overrun _ listed).mp (safe.conversion _ listed) rfl

end Path

end YiimpStratum.Submit
