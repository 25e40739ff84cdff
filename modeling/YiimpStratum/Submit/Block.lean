import YiimpStratum.Library.CompactSize
import YiimpStratum.Submit.Buffers

/-!
# The block for the daemon

`client_do_submit` writes the header, a count, the coinbase and the data of
the transactions one after the other.  The count is the length of one of the
two vectors of `coind_create_template`: of `txids`, which has an entry only for
a transaction with a `txid`, when the segwit flag is set after the loop, or
else of `txhashes`.
-/

namespace YiimpStratum.Submit

open YiimpStratum
open YiimpStratum.Util
open YiimpStratum.Template

/-! ## The transactions of a template -/

/-- `templ->txcount` -/
def txcountOf (limit : Int) (transactions : List GbtTransaction) : Nat :=
  (scanTransactions limit transactions).merkleLeaves.length

/-- `templ->txdata` -/
def txdataOf (limit : Int) (transactions : List GbtTransaction) :
    List CString :=
  (scanTransactions limit transactions).txdata

/-! ## The block -/

/-- The fields of `YAAMP_COIND` that the block depends on. -/
structure BlockCoind where
  pos : Bool
  rpcencoding : CString
  usegetwork : Bool

/-- The fields of `YAAMP_JOB_VALUES` in the block, within their arrays. -/
structure BlockValues where
  headerBe : CString
  headerBin : List UInt8
  coinbase : CString
  header_fits : headerBe.length ≤ equiHeaderSize * 2
  coinbase_fits : coinbase.length < 16 * 1024

/-- The variable `block_size`. -/
def allocatedSize (txdata : List CString) : Int :=
  toInt32 (32 * 1024 + (txdata.map List.length).sum : Nat)

/-- The string `block_hex`. -/
def blockHexOf (algo : CString) (coind : BlockCoind) (values : BlockValues)
    (txcount : Nat) (txdata : List CString) : CString :=
  let start :=
    if algo = "jha".toList then
      values.headerBe ++ "8400000008000000".toList ++ countHexOf txcount ++
        values.coinbase
    else values.headerBe ++ countHexOf txcount ++ values.coinbase
  if coind.rpcencoding = "DCR".toList then
    let hex := hexlify (values.headerBin.take 180)
    let block :=
      if coind.usegetwork then hex ++ "8000000100000000000005a0".toList
      else hex
    block.take (allocatedSize txdata - 1).toNat
  else start ++ txdata.flatten ++ if coind.pos then ['0', '0'] else []

/--
The string given to `coind_submit`; there is none above the target of the coin
or when the allocation fails.
-/
def submittedBlock (algo : CString) (coind : BlockCoind)
    (values : BlockValues) (hashInt coinTarget : Nat) (txcount : Nat)
    (txdata : List CString) : Option CString :=
  if allocatedSize txdata < 0 then none
  else if hashInt ≤ coinTarget then
    some (blockHexOf algo coind values txcount txdata)
  else none

/--
The block is given to the daemon, with the count of the coinbase and the
transactions as it has to be, and fits into its buffer.
-/
def BlockWellFormed (algo : CString) (coind : BlockCoind)
    (values : BlockValues) (hashInt coinTarget : Nat) (limit : Int)
    (transactions : List GbtTransaction) : Prop :=
  ∃ block,
    submittedBlock algo coind values hashInt coinTarget
        (txcountOf limit transactions) (txdataOf limit transactions) =
      some block ∧
    block =
      values.headerBe ++
        hexlify
          (CompactSize.encode (1 + (txdataOf limit transactions).length)) ++
          values.coinbase ++ (txdataOf limit transactions).flatten ++
            (if coind.pos then ['0', '0'] else []) ∧
    (block.length + 1 : Int) ≤ allocatedSize (txdataOf limit transactions)

/-! ## The condition on the transactions -/

/-- The transactions up to the limit of the configuration. -/
def included (limit : Int) (transactions : List GbtTransaction) :
    List GbtTransaction :=
  if limit = 0 then transactions
  else transactions.take (max 1 (limit - 1)).toNat

/--
Every transaction has a `txid`, or after the last one that has none no `txid`
differs from the hash.
-/
def Countable (transactions : List GbtTransaction) : Prop :=
  (∀ transaction ∈ transactions, transaction.txid.isSome = true) ∨
    ∀ transaction ∈
        transactions.reverse.takeWhile fun transaction =>
          transaction.txid.isSome,
      ∀ txid ∈ transaction.txid, txid.text = transaction.hash.text

/-! ## The loop over the transactions -/

/-- The flag after the loop over the transactions. -/
def segwitFlag (transactions : List GbtTransaction) : Bool :=
  transactions.foldl
    (fun flag transaction =>
      match transaction.txid with
      | none => false
      | some txid =>
          flag || stringBe transaction.hash.text != stringBe txid.text)
    false

/-- What the loop has collected from the transactions it was given. -/
structure Scanned (limit : Int) (transactions : List GbtTransaction)
    (scan : TxScan) : Prop where
  txhashes :
    scan.txhashes.length = 1 + (included limit transactions).length
  txids :
    scan.txids.length =
      1 + ((included limit transactions).filter fun transaction =>
        transaction.txid.isSome).length
  txdata :
    scan.txdata =
      (included limit transactions).map GbtTransaction.data
  flag : scan.hasSegwitTxs = segwitFlag (included limit transactions)
  filtered :
    scan.hasFilteredTxs = true ↔
      limit ≠ 0 ∧ transactions ≠ [] ∧ limit - 1 ≤ transactions.length

theorem scanTransactions_concat (limit : Int)
    (transactions : List GbtTransaction) (transaction : GbtTransaction) :
    scanTransactions limit (transactions ++ [transaction]) =
      scanTransaction limit (scanTransactions limit transactions)
        (transaction, transactions.length) := by
  rw [scanTransactions, List.zipIdx_append, List.foldl_append,
    List.zipIdx_singleton, Nat.zero_add]
  rfl

theorem segwitFlag_concat (transactions : List GbtTransaction)
    (transaction : GbtTransaction) :
    segwitFlag (transactions ++ [transaction]) =
      match transaction.txid with
      | none => false
      | some txid =>
          segwitFlag transactions ||
            stringBe transaction.hash.text != stringBe txid.text := by
  rw [segwitFlag, List.foldl_append]
  rfl

theorem included_concat_of_filtered {limit : Int}
    {transactions : List GbtTransaction} (limited : limit ≠ 0)
    (nonempty : transactions ≠ []) (full : limit - 1 ≤ transactions.length)
    (transaction : GbtTransaction) :
    included limit (transactions ++ [transaction]) =
      included limit transactions := by
  have positive := List.length_pos_iff.mpr nonempty
  rw [included, included, if_neg limited, if_neg limited]
  exact List.take_append_of_le_length (by omega)

theorem included_of_room {limit : Int} {transactions : List GbtTransaction}
    (room :
      ¬ (limit ≠ 0 ∧ transactions ≠ [] ∧
        limit - 1 ≤ transactions.length))
    (transaction : GbtTransaction) :
    included limit transactions = transactions ∧
      included limit (transactions ++ [transaction]) =
        transactions ++ [transaction] := by
  by_cases limited : limit = 0
  · rw [included, included, if_pos limited, if_pos limited]
    exact ⟨rfl, rfl⟩
  · have short :
        transactions.length + 1 ≤ (max 1 (limit - 1)).toNat := by
      by_cases empty : transactions = []
      · rw [empty, List.length_nil]
        omega
      · have short : ¬ limit - 1 ≤ transactions.length := fun full =>
          room ⟨limited, empty, full⟩
        omega
    rw [included, included, if_neg limited, if_neg limited]
    refine ⟨List.take_of_length_le (by omega), ?_⟩
    apply List.take_of_length_le
    rw [List.length_append]
    exact short

/-- Behind the limit nothing more is taken. -/
theorem Scanned.skip {limit : Int} {transactions : List GbtTransaction}
    {scan : TxScan} (scanned : Scanned limit transactions scan)
    (done : scan.hasFilteredTxs = true) (transaction : GbtTransaction) :
    Scanned limit (transactions ++ [transaction])
      (scanTransaction limit scan (transaction, transactions.length)) := by
  rw [scanTransaction, if_pos done]
  have full := scanned.filtered.mp done
  have same :=
    included_concat_of_filtered full.1 full.2.1 full.2.2 transaction
  refine
    { txhashes := same ▸ scanned.txhashes
      txids := same ▸ scanned.txids
      txdata := same ▸ scanned.txdata
      flag := same ▸ scanned.flag
      filtered := ⟨fun _ => ⟨full.1, by simp, ?_⟩, fun _ => done⟩ }
  rw [List.length_append]
  have room := full.2.2
  omega

/-- The last transaction before the limit sets the variable. -/
theorem filtered_concat_iff (limit : Int)
    (transactions : List GbtTransaction) (transaction : GbtTransaction) :
    decide (limit ≠ 0 ∧ limit - 2 ≤ transactions.length) = true ↔
      limit ≠ 0 ∧ transactions ++ [transaction] ≠ [] ∧
        limit - 1 ≤ (transactions ++ [transaction]).length := by
  rw [decide_eq_true_eq, List.length_append, List.length_singleton]
  constructor
  · rintro ⟨limited, reached⟩
    exact ⟨limited, by simp, by omega⟩
  · rintro ⟨limited, -, reached⟩
    exact ⟨limited, by omega⟩

/-- Before the limit the transaction is taken. -/
theorem Scanned.push {limit : Int} {transactions : List GbtTransaction}
    {scan : TxScan} (scanned : Scanned limit transactions scan)
    (room : ¬ scan.hasFilteredTxs = true) (transaction : GbtTransaction) :
    Scanned limit (transactions ++ [transaction])
      (scanTransaction limit scan (transaction, transactions.length)) := by
  rw [scanTransaction, if_neg room]
  obtain ⟨before, after⟩ :=
    included_of_room (fun full => room (scanned.filtered.mpr full))
      transaction
  obtain ⟨txhashes, txids, txdata, flag, -⟩ := scanned
  rw [before] at txhashes txids txdata flag
  have filtered := filtered_concat_iff limit transactions transaction
  have hashes :
      (scan.txhashes ++ [stringBe transaction.hash.text]).length =
        1 + (transactions ++ [transaction]).length := by
    rw [List.length_append, txhashes, List.length_append, Nat.add_assoc]
    rfl
  have data :
      scan.txdata ++ [transaction.data] =
        (transactions ++ [transaction]).map GbtTransaction.data := by
    rw [List.map_append, ← txdata]
    rfl
  cases found : transaction.txid with
  | none =>
      exact
        { txhashes := by
            rw [after]
            exact hashes
          txids := by
            rw [after, List.filter_append, List.filter_cons, found]
            refine txids.trans ?_
            rw [List.length_append]
            rfl
          txdata := by
            rw [after]
            exact data
          flag := by
            rw [after, segwitFlag_concat, found]
            rfl
          filtered := filtered }
  | some txid =>
      have ids :
          (scan.txids ++ [stringBe txid.text]).length =
            1 + (List.filter (fun entry => entry.txid.isSome)
              (transactions ++ [transaction])).length := by
        rw [List.length_append, txids, List.filter_append,
          List.filter_cons, found, List.length_append, Nat.add_assoc]
        rfl
      exact
        { txhashes := by
            rw [after]
            exact hashes
          txids := by
            rw [after]
            exact ids
          txdata := by
            rw [after]
            exact data
          flag := by
            rw [after, segwitFlag_concat, found, ← flag]
            rfl
          filtered := filtered }

theorem scanned (limit : Int) (transactions : List GbtTransaction) :
    Scanned limit transactions (scanTransactions limit transactions) := by
  induction transactions using List.reverseRecOn with
  | nil =>
      have empty : included limit [] = [] := by
        rw [included]
        split
        · rfl
        · exact List.take_nil
      exact
        { txhashes := by rw [empty]; rfl
          txids := by rw [empty]; rfl
          txdata := by rw [empty]; rfl
          flag := by rw [empty]; rfl
          filtered := ⟨fun set => Bool.noConfusion set, fun filtered =>
            absurd rfl filtered.2.1⟩ }
  | append_singleton transactions transaction ih =>
      rw [scanTransactions_concat]
      by_cases done :
          (scanTransactions limit transactions).hasFilteredTxs = true
      · exact ih.skip done transaction
      · exact ih.push done transaction

/-! ## The condition and the flag -/

theorem stringBe_eq_iff (left right : HexDigits 64) :
    stringBe left.text = stringBe right.text ↔ left.text = right.text := by
  constructor
  · intro same
    rw [← stringBe_stringBe left.text (by rw [left.length_text]), same,
      stringBe_stringBe right.text (by rw [right.length_text])]
  · intro same
    rw [same]

/-- The flag is that of the transactions after the last one without `txid`. -/
theorem segwitFlag_eq_false_iff (transactions : List GbtTransaction) :
    segwitFlag transactions = false ↔
      ∀ transaction ∈
          transactions.reverse.takeWhile fun transaction =>
            transaction.txid.isSome,
        ∀ txid ∈ transaction.txid,
          txid.text = transaction.hash.text := by
  induction transactions using List.reverseRecOn with
  | nil =>
      exact ⟨fun _ _ member => absurd member (by simp), fun _ => rfl⟩
  | append_singleton transactions transaction ih =>
      rw [segwitFlag_concat, List.reverse_append, List.reverse_singleton,
        List.singleton_append, List.takeWhile_cons]
      cases found : transaction.txid with
      | none =>
          exact ⟨fun _ _ member => absurd member (by simp), fun _ => rfl⟩
      | some txid =>
          rw [Option.isSome_some, if_pos rfl, List.forall_mem_cons, ← ih,
            Bool.or_eq_false_iff, and_comm, bne_eq_false_iff_eq,
            stringBe_eq_iff]
          refine and_congr_left fun _ => ?_
          rw [found]
          constructor
          · rintro same _ ⟨⟩
            exact same.symm
          · exact fun same => (same txid rfl).symm

/-- The count is that of the transactions exactly under the condition. -/
theorem txcountOf_eq_iff (limit : Int) (transactions : List GbtTransaction) :
    txcountOf limit transactions =
        1 + (txdataOf limit transactions).length ↔
      Countable (included limit transactions) := by
  have scan := scanned limit transactions
  rw [txcountOf, txdataOf, scan.txdata, List.length_map, Countable,
    ← segwitFlag_eq_false_iff, ← scan.flag, TxScan.merkleLeaves]
  split
  · rename_i segwit
    rw [scan.txids, segwit, Nat.add_left_cancel_iff,
      List.length_filter_eq_length_iff]
    simp
  · rename_i plain
    rw [scan.txhashes]
    simp [plain]

/-! ## The count -/

/-- Below `2 ^ 16` the string `count_hex` is the encoded count. -/
theorem countHexOf_of_lt {count : Nat} (small : count < 2 ^ 16) :
    countHexOf count = hexlify (CompactSize.encode count) := by
  rw [countHexOf, CompactSize.encode]
  by_cases byte : count ≤ 252
  · rw [if_pos byte, if_pos (by omega), Nat.mod_eq_of_lt (by omega),
      hex2_of_lt (by omega)]
    exact (List.append_nil _).symm
  · rw [if_neg byte, if_neg (by omega), if_pos small,
      CompactSize.littleEndian_two, hex2_of_lt (Nat.mod_lt _ (by decide)),
      hex2_of_lt (by omega), Nat.mod_eq_of_lt (by omega : count / 256 < 256)]
    rfl

/-- From `2 ^ 16` on there is no count with the string `count_hex`. -/
theorem countHexOf_ne_of_le {count : Nat} (large : 2 ^ 16 ≤ count)
    (other : Nat) :
    countHexOf count ≠ hexlify (CompactSize.encode other) := by
  intro same
  have low := two_le_length_hex2 (count % 256)
  have high : ¬ (hex2 (count / 256)).length ≤ 2 := by
    rw [length_hex2_le_iff (le_refl 2)]
    omega
  have long : 7 ≤ (countHexOf count).length := by
    rw [countHexOf, if_neg (by omega), List.length_append,
      List.length_append]
    change 7 ≤ 2 + _ + _
    omega
  have second : (countHexOf count)[1]? = some 'd' := by
    rw [countHexOf, if_neg (by omega)]
    rfl
  rw [same, CompactSize.encode] at long second
  split at long
  · rw [length_hexlify, List.length_singleton] at long
    omega
  · rename_i marked
    rw [if_neg marked] at second
    split at long
    · rw [length_hexlify, List.length_cons,
        CompactSize.length_littleEndian] at long
      omega
    · rename_i wide
      rw [if_neg wide] at second
      have marker : ∀ rest,
          (hexlify (0xfe :: rest))[1]? = some 'e' ∧
            (hexlify (0xff :: rest))[1]? = some 'f' := fun _ => ⟨rfl, rfl⟩
      split at second
      · rw [(marker _).1] at second
        exact absurd second (by decide)
      · rw [(marker _).2] at second
        exact absurd second (by decide)

theorem countHexOf_eq_iff (count other : Nat) :
    countHexOf count = hexlify (CompactSize.encode other) ↔
      count = other ∧ other < 2 ^ 16 := by
  by_cases small : count < 2 ^ 16
  · rw [countHexOf_of_lt small]
    constructor
    · intro same
      have bytes := congrArg binlify same
      rw [binlify_hexlify, binlify_hexlify] at bytes
      obtain rfl := CompactSize.eq_of_encode_eq small bytes
      exact ⟨rfl, small⟩
    · rintro ⟨rfl, -⟩
      rfl
  · refine iff_of_false (countHexOf_ne_of_le (by omega) other) ?_
    rintro ⟨rfl, below⟩
    exact small below

/-! ## The size of the buffer -/

theorem length_countHexOf_le {count : Nat} (small : count < 2 ^ 16) :
    (countHexOf count).length ≤ 6 := by
  have short := (CompactSize.length_encode_le_iff count).mpr small
  rw [countHexOf_of_lt small, length_hexlify]
  omega

/-- The size is that of the data and 32 kilobytes, unless it overflows. -/
theorem allocatedSize_of_lt {txdata : List CString}
    (small : 32 * 1024 + (txdata.map List.length).sum < 2 ^ 31) :
    allocatedSize txdata =
      (32 * 1024 + (txdata.map List.length).sum : Nat) := by
  exact toInt32_of_lt small

/-- After an overflow the data alone does not fit. -/
theorem allocatedSize_le_of_le {txdata : List CString}
    (large : 2 ^ 31 ≤ 32 * 1024 + (txdata.map List.length).sum) :
    allocatedSize txdata ≤ (txdata.map List.length).sum := by
  rw [allocatedSize, toInt32, Int.bmod_def]
  split <;> omega

/-- The string without the exceptions for an algorithm and an encoding. -/
theorem blockHexOf_ordinary {algo : CString} (algorithm : algo ≠ "jha".toList)
    {coind : BlockCoind} (encoding : coind.rpcencoding ≠ "DCR".toList)
    (values : BlockValues) (txcount : Nat) (txdata : List CString) :
    blockHexOf algo coind values txcount txdata =
      values.headerBe ++ countHexOf txcount ++ values.coinbase ++
        txdata.flatten ++ if coind.pos then ['0', '0'] else [] := by
  rw [blockHexOf, if_neg algorithm, if_neg encoding]

/-- The block has the right text exactly when its count is right. -/
theorem blockHexOf_eq_iff (values : BlockValues) (txcount count : Nat)
    (data rest : CString) :
    values.headerBe ++ countHexOf txcount ++ values.coinbase ++ data ++ rest =
        values.headerBe ++ hexlify (CompactSize.encode count) ++
          values.coinbase ++ data ++ rest ↔
      txcount = count ∧ count < 2 ^ 16 := by
  rw [List.append_left_inj, List.append_left_inj, List.append_left_inj,
    List.append_right_inj, countHexOf_eq_iff]

/-- A block with a short count fits into its buffer. -/
theorem length_block_lt (values : BlockValues) {count : Nat}
    (small : count < 2 ^ 16) (txdata : List CString) (pos : Bool) :
    (values.headerBe ++ countHexOf count ++ values.coinbase ++
        txdata.flatten ++ if pos then ['0', '0'] else []).length + 1 ≤
      32 * 1024 + (txdata.map List.length).sum := by
  have header : values.headerBe.length ≤ 2974 := values.header_fits
  have coinbase := values.coinbase_fits
  have short := length_countHexOf_le small
  have suffix : (if pos then ['0', '0'] else []).length ≤ 2 := by
    cases pos <;> decide
  rw [List.length_append, List.length_append, List.length_append,
    List.length_append, List.length_flatten]
  omega

/--
The block is well formed exactly when the count is that of the transactions,
there are fewer than `2 ^ 16` of them, and the size does not overflow.
-/
theorem blockWellFormed_iff {algo : CString} (algorithm : algo ≠ "jha".toList)
    {coind : BlockCoind} (encoding : coind.rpcencoding ≠ "DCR".toList)
    (values : BlockValues) {hashInt coinTarget : Nat}
    (meets : hashInt ≤ coinTarget) (limit : Int)
    (transactions : List GbtTransaction) :
    BlockWellFormed algo coind values hashInt coinTarget limit
        transactions ↔
      Countable (included limit transactions) ∧
        1 + (included limit transactions).length < 2 ^ 16 ∧
          32 * 1024 +
              ((included limit transactions).map fun transaction =>
                transaction.data.length).sum < 2 ^ 31 := by
  have data : txdataOf limit transactions =
      (included limit transactions).map GbtTransaction.data :=
    (scanned limit transactions).txdata
  have lengths :
      ((txdataOf limit transactions).map List.length).sum =
        ((included limit transactions).map fun transaction =>
          transaction.data.length).sum := by
    rw [data, List.map_map]
    rfl
  have count : (txdataOf limit transactions).length =
      (included limit transactions).length := by
    rw [data, List.length_map]
  rw [← lengths, ← count, ← txcountOf_eq_iff]
  constructor
  · rintro ⟨block, submitted, text, fits⟩
    rw [submittedBlock] at submitted
    split at submitted
    · exact absurd submitted (by simp)
    · rw [blockHexOf_ordinary algorithm encoding] at submitted
      have same := (Option.some.inj submitted).trans text
      have counted := (blockHexOf_eq_iff ..).mp same
      refine ⟨counted.1, counted.2, ?_⟩
      by_contra overflow
      have small :=
        allocatedSize_le_of_le (Nat.le_of_not_lt overflow)
      have long :
          ((txdataOf limit transactions).map List.length).sum ≤
            block.length := by
        rw [text, List.length_append, List.length_append,
          List.length_flatten]
        omega
      omega
  · rintro ⟨counted, few, small⟩
    have size := allocatedSize_of_lt small
    refine ⟨_, ?_, (blockHexOf_eq_iff ..).mpr ⟨counted, few⟩, ?_⟩
    · rw [submittedBlock, if_neg (by omega), if_pos meets,
        blockHexOf_ordinary algorithm encoding]
    · rw [size]
      have fits :=
        length_block_lt values (counted ▸ few)
          (txdataOf limit transactions) coind.pos
      omega

/-! ## Three transactions -/

theorem length_digits (digit : Char) :
    (List.replicate 64 digit).length = 64 :=
  List.length_replicate

/-- The digits of a hash. -/
def digitsOf (digit : Char) : HexDigits 64 where
  text := List.replicate 64 digit
  length_text := length_digits digit

/-- A transaction with a hash and perhaps a `txid`. -/
def transactionOf (hash : Char) (txid : Option Char) : GbtTransaction where
  hash := digitsOf hash
  txid := txid.map digitsOf
  data := ['0', hash]
  fee := 0

def ordinaryCoin : BlockCoind where
  pos := false
  rpcencoding := "POW".toList
  usegetwork := false

def shortValues : BlockValues where
  headerBe := ['0', '4']
  headerBin := [4]
  coinbase := ['0', '1']
  header_fits := by decide
  coinbase_fits := by decide

theorem blockWellFormed_iff_ordinaryCoin :
    BlockWellFormed "x11".toList ordinaryCoin shortValues 0 0 0
        [transactionOf '1' none] ↔
      Countable (included 0 [transactionOf '1' none]) ∧
        1 + (included 0 [transactionOf '1' none]).length < 2 ^ 16 ∧
          32 * 1024 +
              ((included 0 [transactionOf '1' none]).map
                fun transaction => transaction.data.length).sum <
            2 ^ 31 :=
  blockWellFormed_iff (by decide) (by decide) shortValues (le_refl 0) 0 _

/-- A transaction without a `txid` before one with a different `txid`. -/
theorem not_blockWellFormed_mixed :
    ¬ BlockWellFormed "x11".toList ordinaryCoin shortValues 0 0 0
      [transactionOf '1' none, transactionOf '2' (some '3')] := by
  rintro ⟨block, submitted, text, -⟩
  have given :
      submittedBlock "x11".toList ordinaryCoin shortValues 0 0
          (txcountOf 0
            [transactionOf '1' none, transactionOf '2' (some '3')])
          (txdataOf 0
            [transactionOf '1' none, transactionOf '2' (some '3')]) =
        some "0402010102".toList := by
    decide
  rw [given] at submitted
  rw [← Option.some.inj submitted] at text
  revert text
  decide

end YiimpStratum.Submit
