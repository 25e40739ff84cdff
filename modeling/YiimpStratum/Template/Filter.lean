import Mathlib.Algebra.Order.BigOperators.Group.List
import YiimpStratum.Submit.Block

/-!
# The limit on the transactions

With a limit `L` a template is to hold the first `L - 1` transactions, and the
fees of the others are taken off its value.  The test comes after a
transaction has been added, so that the first one is always taken, and the
fees are added up in an `int`.

The loop is the same for all algorithms; under Equihash the value is that of
the coinbase transaction of the daemon.
-/

namespace YiimpStratum.Template

open YiimpStratum.Util
open YiimpStratum.Submit

/-! ## Templates of all algorithms -/

section Definitions

variable (sha256Double : Sha256Double)

/-- The rest of the template under another algorithm than Equihash. -/
def otherTemplateBody (templ : YaampJobTemplate) (gbt : GetBlockTemplate)
    (scan : TxScan) : YaampJobTemplate :=
  { templ with
    value :=
      if scan.hasFilteredTxs then gbt.coinbasevalue - scan.filteredTxsFee
      else gbt.coinbasevalue
    txcount := scan.merkleLeaves.length
    txsteps := merkleSteps sha256Double scan.merkleLeaves
    txdata := scan.txdata
    hasSegwitTxs :=
      scan.hasSegwitTxs && gbt.defaultWitnessCommitment.isSome
    hasFilteredTxs := scan.hasFilteredTxs
    filteredTxsFee := scan.filteredTxsFee
    prevhashBe := serStringBe2 templ.prevhashHex 8 }

/-- `coind_create_template` under another algorithm than Equihash. -/
def otherCreateTemplate
    (coinbaseCreate : YaampJobTemplate → CString × CString)
    (config : Config) (coind : YaampCoind) (now : Int)
    (gbt : GetBlockTemplate) : Option YaampJobTemplate :=
  -- the member is only read under Equihash
  let templ := templateHeader now { gbt with finalsaplingroothash := none }
  if !gbt.hasCoinbaseaux && coind.isaux then none
  else if coind.isaux then some templ
  else
    let scan := scanTransactions config.limitTxsPerBlock gbt.transactions
    let templ := otherTemplateBody sha256Double templ gbt scan
    let coinb := coinbaseCreate templ
    some { templ with coinb1 := coinb.1, coinb2 := coinb.2 }

/-- `coind_create_template` on the result of `getblocktemplate`. -/
def createTemplate (equihash : Bool)
    (coinbaseCreate : YaampJobTemplate → CString × CString)
    (config : Config) (coind : YaampCoind) (now : Int)
    (gbt : GetBlockTemplate) : Option YaampJobTemplate :=
  if equihash then
    coindCreateTemplate sha256Double coinbaseCreate config coind now gbt
  else otherCreateTemplate sha256Double coinbaseCreate config coind now gbt

end Definitions

/-- The value that the daemon gives. -/
def givenValue (equihash : Bool) (gbt : GetBlockTemplate) : Option Int :=
  if equihash then gbt.coinbasetxn.map CoinbaseTxn.coinbasevalue
  else some gbt.coinbasevalue

/-! ## The loop -/

/-- The fees of the transactions behind a place. -/
def skippedFees (place : Nat) (transactions : List GbtTransaction) : Int :=
  ((transactions.drop place).map GbtTransaction.fee).sum

theorem skippedFees_concat {place : Nat} {transactions : List GbtTransaction}
    (full : place ≤ transactions.length) (transaction : GbtTransaction) :
    skippedFees place (transactions ++ [transaction]) =
      skippedFees place transactions + transaction.fee := by
  rw [skippedFees, List.drop_append_of_le_length full, List.map_append,
    List.sum_append]
  exact congrArg _ (add_zero _)

theorem skippedFees_of_length_le {place : Nat}
    {transactions : List GbtTransaction}
    (short : transactions.length ≤ place) :
    skippedFees place transactions = 0 := by
  rw [skippedFees, List.drop_of_length_le short]
  rfl

theorem pushTxid_filteredTxsFee (scan : TxScan) (hashBe : CString)
    (txid : Option (HexDigits 64)) :
    (scan.pushTxid hashBe txid).filteredTxsFee = scan.filteredTxsFee := by
  cases txid with
  | none => rfl
  | some digits => rfl

/-- The loop adds up the fees behind the limit in 32 bits. -/
theorem filteredTxsFee_eq {limit : Int} (limited : limit ≠ 0)
    (transactions : List GbtTransaction) :
    (scanTransactions limit transactions).filteredTxsFee =
      toInt32 (skippedFees (max 1 (limit - 1)).toNat transactions) := by
  induction transactions using List.reverseRecOn with
  | nil =>
      rw [skippedFees, List.drop_nil]
      rfl
  | append_singleton transactions transaction ih =>
      have filtered := (scanned limit transactions).filtered
      rw [scanTransactions_concat, scanTransaction]
      by_cases done :
          (scanTransactions limit transactions).hasFilteredTxs = true
      · obtain ⟨-, nonempty, full⟩ := filtered.mp done
        have positive := List.length_pos_iff.mpr nonempty
        rw [if_pos done, skippedFees_concat (by omega)]
        dsimp only
        rw [ih]
        exact Int.bmod_add_bmod
      · have short :
            transactions.length + 1 ≤ (max 1 (limit - 1)).toNat := by
          rcases transactions with _ | ⟨first, rest⟩
          · rw [List.length_nil]
            omega
          · have room :
                ¬ limit - 1 ≤ (first :: rest).length := fun full =>
              done (filtered.mpr ⟨limited, List.cons_ne_nil _ _, full⟩)
            omega
        rw [if_neg done]
        dsimp only
        rw [pushTxid_filteredTxsFee, ih, skippedFees_of_length_le (by omega),
          skippedFees_of_length_le]
        rw [List.length_append, List.length_singleton]
        exact short

theorem hasFilteredTxs_of_fees {limit : Int} (limited : limit ≠ 0)
    {transactions : List GbtTransaction}
    (unset : ¬ (scanTransactions limit transactions).hasFilteredTxs = true) :
    (scanTransactions limit transactions).filteredTxsFee = 0 := by
  rw [filteredTxsFee_eq limited, skippedFees_of_length_le]
  · rfl
  · rcases transactions with _ | ⟨first, rest⟩
    · exact Nat.zero_le _
    · have room : ¬ limit - 1 ≤ (first :: rest).length := fun full =>
        unset
          ((scanned limit _).filtered.mpr ⟨limited, List.cons_ne_nil _ _, full⟩)
      omega

/-- The value after the loop. -/
theorem filteredValue_eq {limit : Int} (limited : limit ≠ 0)
    (transactions : List GbtTransaction) (value : Int) :
    (if (scanTransactions limit transactions).hasFilteredTxs then
        value - (scanTransactions limit transactions).filteredTxsFee
      else value) =
      value -
        toInt32 (skippedFees (max 1 (limit - 1)).toNat transactions) := by
  rw [← filteredTxsFee_eq limited]
  split
  · rfl
  · rename_i unset
    rw [hasFilteredTxs_of_fees limited unset, sub_zero]

/-! ## Templates -/

section Templates

variable {sha256Double : Sha256Double} {equihash : Bool}
variable {coinbaseCreate : YaampJobTemplate → CString × CString}
variable {config : Config} {coind : YaampCoind} {now : Int}
variable {gbt : GetBlockTemplate} {templ : YaampJobTemplate}

/-- What the loop leaves in the template of an ordinary coin. -/
theorem createTemplate_fields
    (created :
      createTemplate sha256Double equihash coinbaseCreate config coind now
        gbt = some templ)
    (notAux : coind.isaux = false) :
    let scan := scanTransactions config.limitTxsPerBlock gbt.transactions
    ∃ value, givenValue equihash gbt = some value ∧
      templ.value =
        (if scan.hasFilteredTxs then value - scan.filteredTxsFee
          else value) ∧
        templ.txcount = scan.merkleLeaves.length ∧
          templ.txdata = scan.txdata := by
  rw [createTemplate] at created
  rw [givenValue]
  cases equihash with
  | true =>
      rcases coindCreateTemplate_cases created with
        ⟨isAux, -⟩ | ⟨-, coinbasetxn, coinb1, coinb2, found, -, rfl⟩
      · exact absurd (notAux.symm.trans isAux) Bool.false_ne_true
      · exact
          ⟨coinbasetxn.coinbasevalue, congrArg (Option.map _) found, rfl, rfl,
            rfl⟩
  | false =>
      rw [if_neg Bool.false_ne_true, otherCreateTemplate, notAux,
        Bool.and_false, if_neg Bool.false_ne_true, if_neg Bool.false_ne_true]
        at created
      rw [← Option.some.inj created]
      exact ⟨gbt.coinbasevalue, rfl, rfl, rfl, rfl⟩

theorem skippedFees_nonneg (place : Nat) {transactions : List GbtTransaction}
    (fees : ∀ transaction ∈ transactions, 0 ≤ transaction.fee) :
    0 ≤ skippedFees place transactions := by
  refine List.sum_nonneg fun fee member => ?_
  obtain ⟨transaction, inDrop, rfl⟩ := List.mem_map.mp member
  exact fees transaction (List.mem_of_mem_drop inDrop)

theorem toInt32_eq_iff {number : Int} (nonneg : 0 ≤ number) :
    toInt32 number = number ↔ number < 2 ^ 31 := by
  obtain ⟨natural, rfl⟩ := Int.eq_ofNat_of_zero_le nonneg
  constructor
  · intro same
    have small := Int.bmod_lt (x := natural) (by decide : 0 < 2 ^ 32)
    rw [toInt32] at same
    omega
  · intro small
    exact toInt32_of_lt (by omega)

/-- The vector of the merkle steps has no more than one entry a transaction. -/
theorem length_merkleLeaves_le (limit : Int)
    (transactions : List GbtTransaction) :
    (scanTransactions limit transactions).merkleLeaves.length ≤
      1 + (included limit transactions).length := by
  have collected := scanned limit transactions
  rw [TxScan.merkleLeaves]
  split
  · rw [collected.txids]
    exact Nat.add_le_add_left (List.length_filter_le _ _) 1
  · exact collected.txhashes.le

/-- The first `limit - 1` transactions are kept, and at least one. -/
theorem createTemplate_filtered
    (created :
      createTemplate sha256Double equihash coinbaseCreate config coind now
        gbt = some templ)
    (notAux : coind.isaux = false) (positive : 0 < config.limitTxsPerBlock) :
    let place := (max 1 (config.limitTxsPerBlock - 1)).toNat
    ∃ value, givenValue equihash gbt = some value ∧
      templ.value = value - toInt32 (skippedFees place gbt.transactions) ∧
        templ.txcount ≤ 1 + (gbt.transactions.take place).length ∧
          templ.txdata =
            (gbt.transactions.take place).map GbtTransaction.data := by
  intro place
  have kept :
      included config.limitTxsPerBlock gbt.transactions =
        gbt.transactions.take place :=
    if_neg positive.ne'
  obtain ⟨value, given, isValue, isCount, isData⟩ :=
    createTemplate_fields created notAux
  refine ⟨value, given, ?_, ?_, ?_⟩
  · rw [isValue]
    exact filteredValue_eq positive.ne' gbt.transactions value
  · rw [isCount, ← kept]
    exact length_merkleLeaves_le config.limitTxsPerBlock gbt.transactions
  · rw [isData, ← kept]
    exact (scanned config.limitTxsPerBlock gbt.transactions).txdata

/--
With a limit the template of an ordinary coin holds the first `limit - 1`
transactions, and its value is without the fees of the others, exactly when the
limit is not 1 or there are no transactions, and the sum of the fees fits an
`int`.
-/
theorem filtering_exact_iff
    (created :
      createTemplate sha256Double equihash coinbaseCreate config coind now
        gbt = some templ)
    (notAux : coind.isaux = false) (positive : 0 < config.limitTxsPerBlock)
    (fees : ∀ transaction ∈ gbt.transactions, 0 ≤ transaction.fee) :
    (templ.txdata =
          (gbt.transactions.take (config.limitTxsPerBlock - 1).toNat).map
            GbtTransaction.data ∧
        (templ.txcount : Int) ≤ config.limitTxsPerBlock ∧
          ∃ value, givenValue equihash gbt = some value ∧
            templ.value =
              value -
                skippedFees (config.limitTxsPerBlock - 1).toNat
                  gbt.transactions) ↔
      (gbt.transactions = [] ∨ 2 ≤ config.limitTxsPerBlock) ∧
        skippedFees (config.limitTxsPerBlock - 1).toNat gbt.transactions <
          2 ^ 31 := by
  obtain ⟨value, given, isValue, count, data⟩ :=
    createTemplate_filtered created notAux positive
  have exactSum :=
    toInt32_eq_iff
      (skippedFees_nonneg (config.limitTxsPerBlock - 1).toNat fees)
  by_cases two : 2 ≤ config.limitTxsPerBlock
  · have same :
        max 1 (config.limitTxsPerBlock - 1) = config.limitTxsPerBlock - 1 :=
      max_eq_right (by omega)
    rw [same] at isValue data count
    have few :
        (gbt.transactions.take
          (config.limitTxsPerBlock - 1).toNat).length ≤
          (config.limitTxsPerBlock - 1).toNat :=
      List.length_take_le _ _
    have room : gbt.transactions = [] ∨ 2 ≤ config.limitTxsPerBlock :=
      .inr two
    rw [and_iff_right room, ← exactSum]
    constructor
    · rintro ⟨-, -, value', given', isValue'⟩
      obtain rfl := Option.some.inj (given.symm.trans given')
      omega
    · intro exactFees
      refine ⟨data, ?_, value, given, ?_⟩
      · omega
      · rw [isValue, exactFees]
  · have one : config.limitTxsPerBlock = 1 := by omega
    rw [one] at isValue data count exactSum ⊢
    cases listed : gbt.transactions with
    | nil =>
        rw [listed] at isValue data count
        exact
          iff_of_true ⟨data, Int.ofNat_le.mpr count, value, given, isValue⟩
            ⟨.inl rfl, by decide⟩
    | cons first rest =>
        rw [listed] at data
        refine iff_of_false ?_ ?_
        · rintro ⟨nothing, -⟩
          rw [data] at nothing
          exact absurd nothing (List.cons_ne_nil _ _)
        · rintro ⟨empty | atLeast, -⟩
          · exact List.cons_ne_nil _ _ empty
          · omega

end Templates

/-! ### Limits of three and of one -/

section Limits

variable (sha256Double : Sha256Double)

def limited (limit : Int) : Config where
  limitTxsPerBlock := limit
  allowRolltime := true

def threeTransactions : List GbtTransaction :=
  [transactionOf '1' none, transactionOf '2' none, transactionOf '3' none]

/-- The answer of a daemon of another algorithm. -/
def plainGbt (transactions : List GbtTransaction) : GetBlockTemplate where
  version := 4
  curtime := 0x5e000000
  height := 100
  coinbasevalue := 5000000000
  bits := ⟨hex8 0x1d00ffff, length_hex8 _⟩
  previousblockhash := digitsOf '3'
  target := digitsOf '0'
  finalsaplingroothash := none
  stateroot := none
  utxoroot := none
  hasCoinbaseaux := true
  transactions := transactions
  coinbasetxn := none
  defaultWitnessCommitment := none

/-- The template that is made of it. -/
def plainTemplate (limit : Int) (transactions : List GbtTransaction) :
    Option YaampJobTemplate :=
  createTemplate sha256Double false (fun _ => ([], [])) (limited limit)
    { id := 1, isaux := false } 0 (plainGbt transactions)

/-- Two of three transactions, and the value without the fee of the third. -/
theorem filtering_limit_three :
    ∃ templ,
      plainTemplate (fun _ => Vector.replicate 32 0) 3 threeTransactions =
        some templ ∧
      templ.txdata =
          (threeTransactions.take 2).map GbtTransaction.data ∧
        (templ.txcount : Int) ≤ 3 ∧
          ∃ value, givenValue false (plainGbt threeTransactions) = some value ∧
            templ.value = value - skippedFees 2 threeTransactions := by
  refine ⟨_, rfl, ?_⟩
  exact
    (@filtering_exact_iff (fun _ => Vector.replicate 32 0) false
      (fun _ => ([], [])) (limited 3) { id := 1, isaux := false } 0
      (plainGbt threeTransactions) _ rfl rfl (by decide) (by decide)).mpr
      ⟨.inr (by decide), by decide⟩

/-- With a limit of one the block holds a transaction besides its coinbase. -/
theorem filtering_limit_one :
    ∃ templ,
      plainTemplate (fun _ => Vector.replicate 32 0) 1 threeTransactions =
        some templ ∧
      ¬ (templ.txdata =
            (threeTransactions.take 0).map GbtTransaction.data ∧
          (templ.txcount : Int) ≤ 1) := by
  refine ⟨_, rfl, ?_⟩
  rintro ⟨-, count⟩
  exact absurd count (by decide)

end Limits

end YiimpStratum.Template
