import YiimpStratum.Coinbase.Parse

/-!
# The height in the coinbase

`getblocheight` of `util.cpp`, which reads the height of a block back from the
first half of its coinbase.  It looks for the index `ffffffff` of the input
and takes the number behind the length byte of the script.

The number is at least two bytes for the reader and at least one for
`ser_number`, so the heights from 1 to 127 are read together with a byte of
the time.  In a parent of merged mining the text of `coinbase_aux` has overrun
`script2` by then, and nothing is said of what the first half becomes.
-/

namespace YiimpStratum.Coinbase

open YiimpStratum.Util
open YiimpStratum.Template
open YiimpStratum.Submit
open YiimpStratum.Merged

/-! ## Reading -/

/-- The array `coinb1_bin`, with what was in memory behind the text. -/
def coinb1Bin (memory : Nat → UInt8) (coinb1 : CString) (p : Nat) : UInt8 :=
  (binlify coinb1)[p]?.getD (memory p)

/-- A loop that moves `p` over at most `left` bytes. -/
def scanWhile (bin : Nat → UInt8) (test : UInt8 → Bool) : Nat → Nat → Nat
  | 0, p => p
  | left + 1, p =>
      if test (bin p) then scanWhile bin test left (p + 1) else p

def le16dec (bin : Nat → UInt8) (p : Nat) : Nat :=
  (bin (p + 1)).toNat * 256 + (bin p).toNat

/-- The height behind its length byte `hlen`. -/
def heightAt (bin : Nat → UInt8) (p : Nat) : Nat :=
  let hlen := bin p
  let height := le16dec bin (p + 1)
  if hlen = 4 then height + 0x10000 * le16dec bin (p + 3)
  else if hlen = 3 then height + 0x10000 * (bin (p + 3)).toNat
  else height

/-- `getblocheight`, with the bounds of `p` and `m` as positions. -/
def getblocheight (memory : Nat → UInt8) (coinb1 : CString) : Int :=
  let bin := coinb1Bin memory coinb1
  let m := 32 + 128
  let tag := scanWhile bin (fun byte => byte ≠ 0xff) (m - 32) 32
  let p := scanWhile bin (fun byte => byte = 0xff) (m - tag) tag
  if bin (p - 1) = 0xff ∧ bin (p - 2) = 0xff then
    toInt32 (heightAt bin (p + 1))
  else 0

/-! ## Memory -/

/-- The bytes stand in memory from a position on. -/
def Holds (bin : Nat → UInt8) (p : Nat) (bytes : List UInt8) : Prop :=
  ∀ i byte, bytes[i]? = some byte → bin (p + i) = byte

theorem holds_coinb1Bin (memory : Nat → UInt8) (coinb1 : CString) :
    Holds (coinb1Bin memory coinb1) 0 (binlify coinb1) := by
  intro i byte found
  rw [coinb1Bin, Nat.zero_add, found, Option.getD_some]

theorem Holds.cons {bin : Nat → UInt8} {p : Nat} {byte : UInt8}
    {bytes : List UInt8} (holds : Holds bin p (byte :: bytes)) :
    bin p = byte ∧ Holds bin (p + 1) bytes := by
  refine ⟨holds 0 byte rfl, fun i other found => ?_⟩
  rw [Nat.add_assoc, Nat.add_comm 1 i]
  exact holds (i + 1) other found

theorem Holds.append {bin : Nat → UInt8} {p : Nat} {left right : List UInt8}
    (holds : Holds bin p (left ++ right)) :
    Holds bin p left ∧ Holds bin (p + left.length) right := by
  induction left generalizing p with
  | nil =>
      exact ⟨fun _ _ found => by simp at found, holds⟩
  | cons byte left ih =>
      obtain ⟨head, tail⟩ := holds.cons
      obtain ⟨first, second⟩ := ih tail
      refine ⟨?_, ?_⟩
      · rintro (- | i) other found
        · exact head.trans (Option.some.inj found)
        · rw [Nat.add_comm i 1, ← Nat.add_assoc]
          exact first i other found
      · rw [List.length_cons, Nat.add_comm left.length 1, ← Nat.add_assoc]
        exact second

theorem Holds.replicate {bin : Nat → UInt8} {p count : Nat} {byte : UInt8}
    (holds : Holds bin p (List.replicate count byte)) {i : Nat}
    (inside : p ≤ i ∧ i < p + count) : bin i = byte := by
  have found :
      (List.replicate count byte)[i - p]? = some byte := by
    rw [List.getElem?_replicate, if_pos (by omega)]
  have value := holds (i - p) byte found
  rwa [Nat.add_sub_cancel' inside.1] at value

/-! ## The tag -/

/-- A loop stops at the first byte that fails its test. -/
theorem scanWhile_prefix {bin : Nat → UInt8} {test : UInt8 → Bool}
    {left count p : Nat} (bound : count ≤ left)
    (passes : ∀ i, p ≤ i → i < p + count → test (bin i) = true)
    (fails : test (bin (p + count)) = false) :
    scanWhile bin test left p = p + count := by
  induction count generalizing left p with
  | zero =>
      cases left with
      | zero =>
          rfl
      | succ left =>
          rw [Nat.add_zero] at fails
          rw [scanWhile, fails]
          rfl
  | succ count ih =>
      obtain ⟨left, rfl⟩ := Nat.exists_eq_add_of_le' (by omega : 1 ≤ left)
      rw [scanWhile, if_pos (passes p (le_refl p) (by omega)),
        ih (by omega) (fun i lower upper => passes i (by omega) (by omega))]
      · omega
      · rwa [Nat.add_assoc, Nat.add_comm 1 count]

/-- The height is read behind the index and the length of the script. -/
theorem getblocheight_of_tag {memory : Nat → UInt8} {coinb1 : CString}
    {start : Nat} {scriptLength : UInt8} {script : List UInt8}
    (early : start ≤ 32)
    (holds :
      Holds (coinb1Bin memory coinb1) start
        (List.replicate 32 0 ++
          (List.replicate 4 0xff ++ scriptLength :: script)))
    (short : scriptLength ≠ 0xff) :
    Holds (coinb1Bin memory coinb1) (start + 37) script ∧
      getblocheight memory coinb1 =
        toInt32 (heightAt (coinb1Bin memory coinb1) (start + 37)) := by
  obtain ⟨zeros, rest⟩ := holds.append
  rw [List.length_replicate] at rest
  obtain ⟨tags, rest⟩ := rest.append
  rw [List.length_replicate] at rest
  obtain ⟨after, script⟩ := rest.cons
  have isTag : ∀ i, start + 32 ≤ i → i < start + 36 →
      coinb1Bin memory coinb1 i = 0xff := fun i lower upper =>
    tags.replicate ⟨lower, by omega⟩
  have tag :
      scanWhile (coinb1Bin memory coinb1) (fun byte => byte ≠ 0xff)
          (32 + 128 - 32) 32 =
        32 + start := by
    refine scanWhile_prefix (by omega) ?_ ?_
    · intro i lower upper
      rw [zeros.replicate ⟨by omega, by omega⟩]
      decide
    · rw [isTag (32 + start) (by omega) (by omega)]
      decide
  have behind :
      scanWhile (coinb1Bin memory coinb1) (fun byte => byte = 0xff)
          (32 + 128 - (32 + start)) (32 + start) =
        32 + start + 4 := by
    refine scanWhile_prefix (by omega) ?_ ?_
    · intro i lower upper
      rw [isTag i (by omega) (by omega)]
      decide
    · rw [show 32 + start + 4 = start + 32 + 4 by omega, after]
      exact decide_eq_false short
  refine ⟨script, ?_⟩
  rw [getblocheight, tag, behind,
    if_pos ⟨isTag _ (by omega) (by omega), isTag _ (by omega) (by omega)⟩,
    show 32 + start + 4 + 1 = start + 37 by omega]

/-! ## The number -/

theorem le16dec_of_holds {bin : Nat → UInt8} {p : Nat} {low high : UInt8}
    {rest : List UInt8} (holds : Holds bin p (low :: high :: rest)) :
    le16dec bin p = littleEndian [low, high] := by
  obtain ⟨first, rest⟩ := holds.cons
  obtain ⟨second, -⟩ := rest.cons
  rw [le16dec, first, second]
  rw [littleEndian_cons, littleEndian_single]
  omega

theorem littleEndian_word (low high : UInt8) (rest : List UInt8) :
    littleEndian (low :: high :: rest) =
      littleEndian [low, high] + 0x10000 * littleEndian rest := by
  rw [littleEndian_cons, littleEndian_cons, littleEndian_cons,
    littleEndian_single]
  omega

/-- Two to four bytes are read as the number that they are. -/
theorem heightAt_of_holds {bin : Nat → UInt8} {p : Nat}
    {bytes rest : List UInt8} (length : 2 ≤ bytes.length ∧ bytes.length ≤ 4)
    (holds :
      Holds bin p (UInt8.ofNat bytes.length :: (bytes ++ rest))) :
    heightAt bin p = littleEndian bytes := by
  obtain ⟨hlen, number⟩ := holds.cons
  rw [heightAt, hlen]
  match bytes, length with
  | [_, _], _ =>
      exact le16dec_of_holds number
  | [low, high, third], _ =>
      obtain ⟨-, tail⟩ := number.cons
      obtain ⟨-, tail⟩ := tail.cons
      calc
        _ = le16dec bin (p + 1) + 0x10000 * (bin (p + 3)).toNat := rfl
        _ = littleEndian [low, high] + 0x10000 * littleEndian [third] := by
          rw [le16dec_of_holds number, tail.cons.1, littleEndian_single]
        _ = littleEndian [low, high, third] :=
          (littleEndian_word low high [third]).symm
  | [low, high, third, fourth], _ =>
      obtain ⟨-, tail⟩ := number.cons
      obtain ⟨-, tail⟩ := tail.cons
      calc
        _ = le16dec bin (p + 1) + 0x10000 * le16dec bin (p + 3) := rfl
        _ = littleEndian [low, high] +
              0x10000 * littleEndian [third, fourth] := by
          rw [le16dec_of_holds number, le16dec_of_holds tail]
        _ = littleEndian [low, high, third, fourth] :=
          (littleEndian_word low high [third, fourth]).symm

/-- One byte is read together with the byte behind it. -/
theorem heightAt_of_single {bin : Nat → UInt8} {p : Nat}
    {byte next : UInt8} {rest : List UInt8}
    (holds : Holds bin p (1 :: byte :: next :: rest)) :
    heightAt bin p = littleEndian [byte, next] := by
  obtain ⟨hlen, number⟩ := holds.cons
  rw [heightAt, hlen]
  exact le16dec_of_holds number

theorem length_serBytes_pos (n : Int) : 0 < (serBytes n).length := by
  rw [serBytes]
  split <;> exact Nat.succ_pos _

theorem two_le_length_serBytes {n : Int} (large : 127 < n) :
    2 ≤ (serBytes n).length := by
  rw [serBytes, if_pos large]
  exact Nat.succ_le_succ (length_serBytes_pos _)

theorem littleEndian_serBytes {n : Int} (nonneg : 0 ≤ n) :
    (littleEndian (serBytes n) : Int) = n := by
  induction n using serBytes.induct with
  | case1 n large ih =>
      have rest := ih (by omega)
      rw [serBytes, if_pos large, littleEndian_cons, UInt8.toNat_ofNat']
      omega
  | case2 n small =>
      rw [serBytes, if_neg small, littleEndian_cons, UInt8.toNat_ofNat']
      change ((_ + 256 * 0 : Nat) : Int) = _
      omega

/-! ## The first half of a coinbase -/

/--
`templ->coinb1`, which is written before the case of the coin.  There is none
to speak of where `coinbase_aux` has overrun the array `script2`.
-/
def coinb1Of (sha256Double : Sha256Double) (records : List CoindAux)
    (coind : CoinbaseCoind) (templ : CoinbaseTemplate) (now : Int) :
    Option CString :=
  (script2Of sha256Double records coind templ).map fun script2 =>
    (coinbaseTexts coind templ now script2 (coind, Body.empty)).coinb1

/-- It stays as it is until `coinbase_create` ends. -/
theorem coinb1Of_of_coinbaseCreate {sha256Double : Sha256Double}
    {records : List CoindAux} {coind : CoinbaseCoind}
    {templ : CoinbaseTemplate} {answer : CoinbaseAnswer} {now : Int}
    {coinbase : CoinbaseTexts}
    (created :
      coinbaseCreate sha256Double records coind templ answer now =
        some coinbase) :
    coinb1Of sha256Double records coind templ now = some coinbase.coinb1 := by
  simp only [coinbaseCreate, Option.bind_eq_bind, Option.bind_eq_some_iff]
    at created
  obtain ⟨script2, chosen, written, -, ⟨⟩⟩ := created
  rw [coinb1Of, chosen]
  rfl

/-- The coin is a parent of merged mining, with chains to commit to. -/
def MergesAuxs (coind : CoinbaseCoind) (templ : CoinbaseTemplate) : Prop :=
  ¬ coind.pos ∧ ¬ coind.isaux ∧ templ.auxs ≠ []

instance (coind : CoinbaseCoind) (templ : CoinbaseTemplate) :
    Decidable (MergesAuxs coind templ) :=
  inferInstanceAs (Decidable (_ ∧ _))

theorem script2Of_alone (sha256Double : Sha256Double)
    (records : List CoindAux) {coind : CoinbaseCoind}
    {templ : CoinbaseTemplate} (alone : ¬ MergesAuxs coind templ) :
    script2Of sha256Double records coind templ = some "7969696d7000".toList :=
  if_neg alone

/-- The height, the time and the length of the extranonce. -/
def scriptBytes (height now : Int) : List UInt8 :=
  UInt8.ofNat (serBytes height).length ::
    (serBytes height ++
      UInt8.ofNat (serBytes (toInt32 now)).length ::
        (serBytes (toInt32 now) ++ [8]))

theorem binlify_script1Of {templ : CoinbaseTemplate} {now : Int}
    (unflagged : templ.flags = []) :
    binlify (script1Of templ now) = scriptBytes templ.height now := by
  have even : ∀ n, (serNumber n).length % 2 = 0 := fun n =>
    (hexText_hexlify _).1
  have last : binlify "08".toList = [8] := by decide
  rw [script1Of, unflagged, List.append_nil, binlify_append _ _ (even _),
    binlify_append _ _ (even _), serNumber, serNumber, binlify_hexlify,
    binlify_hexlify, last]
  rfl

/-- The index of the input is behind five or nine bytes. -/
theorem CoinbaseTexts.Framed.binlify_coinb1 {coinbase : CoinbaseTexts}
    {timed : Bool} (framed : coinbase.Framed timed) {count : Nat}
    (few : count < 256) (scriptLength : coinbase.scriptLength = hex2 count) :
    ∃ front : List UInt8, front.length ≤ 32 ∧
      binlify coinbase.coinb1 =
        front ++
          (List.replicate 32 0 ++
            (List.replicate 4 0xff ++
              UInt8.ofNat count :: binlify coinbase.script1)) := by
  have hexFront :
      HexText (coinbase.eversion1 ++ coinbase.entime ++ "01".toList) :=
    (framed.version.append framed.time).append (by decide)
  have hexZeros := hexFront.append (by decide : HexText (List.replicate 64 '0'))
  have hexIndex := hexZeros.append (by decide : HexText "ffffffff".toList)
  have hexLength : HexText coinbase.scriptLength :=
    scriptLength ▸ hexText_hex2 few
  have zeros :
      binlify (List.replicate 64 '0') = List.replicate 32 0 := by
    decide
  have index : binlify "ffffffff".toList = List.replicate 4 0xff := by
    decide
  refine
    ⟨binlify (coinbase.eversion1 ++ coinbase.entime ++ "01".toList), ?_, ?_⟩
  · have one : "01".toList.length = 2 := rfl
    rw [length_binlify, List.length_append, List.length_append,
      framed.length_version, framed.length_time, one]
    split <;> decide
  · rw [CoinbaseTexts.coinb1, binlify_append _ _ (hexIndex.append hexLength).1,
      binlify_append _ _ hexIndex.1, binlify_append _ _ hexZeros.1,
      binlify_append _ _ hexFront.1, zeros, index, scriptLength,
      hex2_of_lt few, binlify_hexByte]
    simp only [List.append_assoc, List.singleton_append]

/-- The bytes of the first half, up to the index and behind it. -/
theorem binlify_coinb1 (coind : CoinbaseCoind) {templ : CoinbaseTemplate}
    (now : Int) (written : CoinbaseCoind × Body)
    (unflagged : templ.flags = []) :
    ∃ front : List UInt8, ∃ scriptLength : UInt8,
      front.length ≤ 32 ∧ scriptLength ≠ 0xff ∧
        binlify
            (coinbaseTexts coind templ now "7969696d7000".toList
              written).coinb1 =
          front ++
            (List.replicate 32 0 ++
              (List.replicate 4 0xff ++
                scriptLength :: scriptBytes templ.height now)) := by
  set count :=
    (script1Of templ now).length / 2 + "7969696d7000".toList.length / 2 + 8
    with counted
  have few : count < 253 := by
    have length := length_script1Of_le templ now
    have fixed : "7969696d7000".toList.length = 12 := rfl
    omega
  obtain ⟨front, early, bytes⟩ :=
    (framed coind templ now "7969696d7000".toList written).binlify_coinb1
      (by omega : count < 256) rfl
  refine ⟨front, UInt8.ofNat count, early, ?_, ?_⟩
  · intro full
    have value := congrArg UInt8.toNat full
    rw [UInt8.toNat_ofNat'] at value
    change _ = 255 at value
    omega
  · rw [bytes, ← binlify_script1Of unflagged]
    rfl

/-! ## The height of a coinbase -/

theorem heightAt_of_large {bin : Nat → UInt8} {p : Nat} {height now : Int}
    (large : 128 ≤ height) (below : height < 2 ^ 31)
    (holds : Holds bin p (scriptBytes height now)) :
    (heightAt bin p : Int) = height := by
  have length : 2 ≤ (serBytes height).length ∧ (serBytes height).length ≤ 4 :=
    ⟨two_le_length_serBytes (by omega), length_serBytes_le_four below⟩
  rw [heightAt_of_holds length holds]
  exact littleEndian_serBytes (by omega)

theorem heightAt_of_small {bin : Nat → UInt8} {p : Nat} {height now : Int}
    (positive : 1 ≤ height) (small : height < 128)
    (holds : Holds bin p (scriptBytes height now)) :
    (heightAt bin p : Int) =
      height + 256 * (serBytes (toInt32 now)).length := by
  have single : serBytes height = [UInt8.ofNat (height % 256).toNat] := by
    rw [serBytes, if_neg (by omega)]
  rw [scriptBytes, single] at holds
  have few := length_serBytes_le_four (toInt32_lt now)
  rw [heightAt_of_single holds, littleEndian_cons, littleEndian_single,
    UInt8.toNat_ofNat', UInt8.toNat_ofNat']
  omega

/-- Above a height of one byte the count of the time is read. -/
theorem getblocheight_coinb1 (coind : CoinbaseCoind)
    {templ : CoinbaseTemplate} (now : Int) (written : CoinbaseCoind × Body)
    (unflagged : templ.flags = []) (positive : 1 ≤ templ.height)
    (memory : Nat → UInt8) :
    getblocheight memory
        (coinbaseTexts coind templ now "7969696d7000".toList written).coinb1 =
      if 128 ≤ templ.height then templ.height
      else templ.height + 256 * (serBytes (toInt32 now)).length := by
  obtain ⟨front, scriptLength, early, short, bytes⟩ :=
    binlify_coinb1 coind now written unflagged
  have holds := holds_coinb1Bin memory
    (coinbaseTexts coind templ now "7969696d7000".toList written).coinb1
  rw [bytes] at holds
  have behind := holds.append.2
  rw [Nat.zero_add] at behind
  obtain ⟨script, read⟩ := getblocheight_of_tag early behind short
  rw [read]
  split
  · have value := heightAt_of_large (by omega) templ.height_lt script
    have below := templ.height_lt
    rw [toInt32_of_lt (by omega), value]
  · have value := heightAt_of_small positive (by omega) script
    have few := length_serBytes_le_four (toInt32_lt now)
    rw [toInt32_of_lt (by omega), value]

/-- A height of one byte is never read back. -/
theorem getblocheight_coinb1_iff (coind : CoinbaseCoind)
    {templ : CoinbaseTemplate} (now : Int) (written : CoinbaseCoind × Body)
    (unflagged : templ.flags = []) (positive : 1 ≤ templ.height)
    (memory : Nat → UInt8) :
    getblocheight memory
          (coinbaseTexts coind templ now "7969696d7000".toList
            written).coinb1 =
        templ.height ↔
      128 ≤ templ.height := by
  rw [getblocheight_coinb1 coind now written unflagged positive memory]
  have bytes := length_serBytes_pos (toInt32 now)
  split <;> omega

/-- `coinbase_create` writes a first half from which the height is read. -/
def HeightSurvives (sha256Double : Sha256Double) (records : List CoindAux)
    (coind : CoinbaseCoind) (templ : CoinbaseTemplate) (now : Int) : Prop :=
  ∃ coinb1 ∈ coinb1Of sha256Double records coind templ now,
    ∀ memory : Nat → UInt8, getblocheight memory coinb1 = templ.height

/--
A height is read back exactly when it takes more than one byte, and the
commitments to other chains have not overrun `script2`.
-/
theorem heightSurvives_iff (sha256Double : Sha256Double)
    (records : List CoindAux) (coind : CoinbaseCoind)
    (templ : CoinbaseTemplate) (now : Int) (unflagged : templ.flags = [])
    (positive : 1 ≤ templ.height) :
    HeightSurvives sha256Double records coind templ now ↔
      128 ≤ templ.height ∧ ¬ MergesAuxs coind templ := by
  by_cases merges : MergesAuxs coind templ
  · refine iff_of_false ?_ fun fine => fine.2 merges
    rintro ⟨coinb1, isCoinb1, -⟩
    rw [coinb1Of, script2Of_merged sha256Double records merges] at isCoinb1
    exact absurd isCoinb1 (by simp)
  · have first :
        coinb1Of sha256Double records coind templ now =
          some
            (coinbaseTexts coind templ now "7969696d7000".toList
              (coind, Body.empty)).coinb1 := by
      rw [coinb1Of, script2Of_alone sha256Double records merges]
      rfl
    have reads := fun memory =>
      getblocheight_coinb1_iff coind now (coind, Body.empty) unflagged positive
        memory
    rw [HeightSurvives, first, and_iff_left merges]
    constructor
    · rintro ⟨_, ⟨⟩, survives⟩
      exact (reads fun _ => 0).mp (survives fun _ => 0)
    · intro large
      exact ⟨_, rfl, fun memory => (reads memory).mpr large⟩

/-- The template of a block with a height of two bytes. -/
def thousandTemplate : CoinbaseTemplate :=
  { shortTemplate with
    height := 1000
    height_lt := by decide }

theorem heightSurvives_thousandTemplate :
    HeightSurvives (fun _ => Vector.replicate 32 0) [] masternodeCoin
        thousandTemplate 1600000000 ∧
      128 ≤ thousandTemplate.height ∧
        ¬ MergesAuxs masternodeCoin thousandTemplate := by
  have fine :
      128 ≤ thousandTemplate.height ∧
        ¬ MergesAuxs masternodeCoin thousandTemplate := by
    decide
  refine ⟨?_, fine⟩
  exact
    (heightSurvives_iff (fun _ => Vector.replicate 32 0) [] masternodeCoin
      thousandTemplate 1600000000 rfl (by decide)).mpr fine

/-- At height 100 the count of the bytes of the time is read as well. -/
theorem not_heightSurvives_shortTemplate :
    ¬ HeightSurvives (fun _ => Vector.replicate 32 0) [] masternodeCoin
      shortTemplate 1600000000 := by
  rintro ⟨coinb1, isCoinb1, survives⟩
  have first :=
    coinb1Of_of_coinbaseCreate
      (coinbaseCreate_bech32 (fun _ => Vector.replicate 32 0) 1600000000)
  obtain rfl := Option.some.inj (first.symm.trans isCoinb1)
  have reads :=
    getblocheight_coinb1_iff masternodeCoin 1600000000
      (masternodeCoin, bech32Body) (rfl : shortTemplate.flags = [])
      (by decide) fun _ => 0
  exact absurd (reads.mp (survives fun _ => 0)) (by decide)

end YiimpStratum.Coinbase
