import Mathlib.Data.Int.ModEq
import YiimpStratum.Coinbase.Parse

/-!
# The value of the coinbase

What the outputs of a coinbase pay together.  Every case keeps what is packed
and the variable `available` in step, up to a few coins whose payees are paid
on top of the value of the template.

Amounts are read back from the texts, so sums are modulo `2 ^ 64`.
-/

namespace YiimpStratum.Coinbase

open YiimpStratum.Util
open YiimpStratum.Template
open YiimpStratum.Merged

/-! ## Amounts -/

/-- The amount that the text of a value denotes. -/
def TxOut.amount (out : TxOut) : Nat :=
  BigEndian.value ((decodeHex out.value).getD []).reverse

/-- The outputs pay an amount together. -/
def Pays (outputs : List TxOut) (amount : Int) : Prop :=
  Int.ModEq (2 ^ 64) ((outputs.map TxOut.amount).sum : Nat) amount

/-- A byte of a value. -/
theorem toNat_txValue (v : Int) (s : Nat) :
    ((txValue v s).toNat : Int) = v / 2 ^ s % 256 := by
  have nonneg : 0 ≤ v / 2 ^ s % 256 := Int.emod_nonneg _ (by decide)
  have below : v / 2 ^ s % 256 < 256 := Int.emod_lt_of_pos _ (by decide)
  rw [txValue, UInt8.toNat_ofNat', Nat.mod_eq_of_lt (by omega)]
  exact Int.toNat_of_nonneg nonneg

/-- The byte at a position, and those after it. -/
theorem txValue_step (v : Int) (s : Nat) :
    v / 2 ^ s = (txValue v s).toNat + 256 * (v / 2 ^ (s + 8)) := by
  have shift : v / 2 ^ (s + 8) = v / 2 ^ s / 256 := by
    rw [pow_add, ← Int.ediv_ediv_of_nonneg (by positivity)]
    rfl
  rw [toNat_txValue, shift]
  exact (Int.emod_add_mul_ediv _ _).symm

/-- A value is read back modulo its 64 bits. -/
theorem amount_encodeTxValue {out : TxOut} {amount : Int}
    (value : out.value = encodeTxValue amount) :
    Int.ModEq (2 ^ 64) out.amount amount := by
  have first : amount / 2 ^ 0 = amount := by
    rw [pow_zero, Int.ediv_one]
  have whole :
      amount = (out.amount : Int) + 2 ^ 64 * (amount / 2 ^ 64) := by
    rw [TxOut.amount, value, encodeTxValue, decodeHex_hexlify,
      Option.getD_some]
    simp only [List.reverse_cons, List.reverse_nil, List.nil_append,
      List.cons_append, BigEndian.value_cons, BigEndian.value_nil,
      List.length_cons, List.length_nil]
    have b0 := txValue_step amount 0
    have b1 := txValue_step amount 8
    have b2 := txValue_step amount 16
    have b3 := txValue_step amount 24
    have b4 := txValue_step amount 32
    have b5 := txValue_step amount 40
    have b6 := txValue_step amount 48
    have b7 := txValue_step amount 56
    rw [first] at b0
    push_cast
    omega
  rw [Int.ModEq]
  omega

/-! ## Sums -/

theorem pays_nil : Pays [] 0 :=
  Int.ModEq.refl 0

/-- One output pays its amount. -/
theorem pays_singleton {out : TxOut} {amount : Int}
    (value : out.value = encodeTxValue amount) : Pays [out] amount := by
  rw [Pays, List.map_singleton, List.sum_singleton]
  exact amount_encodeTxValue value

/-- Outputs pay together what their parts pay. -/
theorem Pays.append {left right : List TxOut} {first second : Int}
    (pays : Pays left first) (others : Pays right second) :
    Pays (left ++ right) (first + second) := by
  rw [Pays, List.map_append, List.sum_append, Nat.cast_add]
  exact Int.ModEq.add pays others

/-- An output in front adds its amount. -/
theorem Pays.cons {out : TxOut} {outputs : List TxOut} {first second : Int}
    (value : out.value = encodeTxValue first)
    (others : Pays outputs second) :
    Pays (out :: outputs) (first + second) :=
  (pays_singleton value).append others

/-! ## What is packed -/

/-- An output for a script hash has its amount. -/
theorem value_of_p2shPackInto {size : Nat} {amount : Int} {payee : CString}
    {out : TxOut} (packed : p2shPackInto size amount payee = some out) :
    out.value = encodeTxValue amount := by
  rw [p2shPackInto_eq] at packed
  split at packed
  · cases packed
    rfl
  · cases packed

/-- An output for a key has its amount. -/
theorem value_of_jobPackTx {coind : CoinbaseCoind} {amount : Int}
    {key : Option CString} {out : TxOut}
    (packed : jobPackTx coind amount key = some out) :
    out.value = encodeTxValue amount := by
  rw [jobPackTx] at packed
  split at packed
  · exact value_of_p2shPackInto packed
  · split at packed
    · cases packed
      rfl
    · cases packed
      rfl

/-- The output for what is due has its amount. -/
theorem Due.value_out (due : Due) :
    due.out.value = encodeTxValue due.amount := by
  rw [Due.out]
  split
  · rfl
  · rfl

/-- The outputs for what is due pay it together. -/
theorem pays_dues (dues : List Due) :
    Pays (dues.map Due.out) (dues.map Due.amount).sum := by
  induction dues with
  | nil => exact pays_nil
  | cons due dues ih =>
      rw [List.map_cons, List.map_cons, List.sum_cons]
      exact Pays.cons due.value_out ih

/-- The commitment pays nothing. -/
theorem pays_commitmentOf {coind : CoinbaseCoind} {templ : CoinbaseTemplate}
    {commitment : List TxOut}
    (committed : commitmentOf coind templ = some commitment) :
    Pays commitment 0 := by
  rw [commitmentOf] at committed
  split at committed
  · obtain ⟨text, -, rfl⟩ := Option.map_eq_some_iff.mp committed
    exact pays_singleton rfl
  · cases committed
    exact pays_nil

/-! ## Every case -/

section Cases

variable {coind after : CoinbaseCoind} {templ : CoinbaseTemplate}
variable {answer : CoinbaseAnswer} {available : Int} {body : Body}
variable {commitment : List TxOut}

/-- The payees and the miner share what is available. -/
theorem pays_payeesBody {npayees : Nat} {dues : List Due}
    (free : Pays commitment 0)
    (written :
      payeesBody coind commitment npayees available dues = some body) :
    Pays body.outputs available := by
  simp only [payeesBody, foldlM_add, List.nil_append, Option.bind_eq_bind,
    Option.bind_some, Option.bind_eq_some_iff] at written
  obtain ⟨text, -, miner, packed, ⟨⟩⟩ := written
  have total :=
    (free.append (pays_dues dues)).append
      (pays_singleton (value_of_jobPackTx packed))
  have share :
      0 + (dues.map Due.amount).sum +
          (available - (dues.map Due.amount).sum) = available := by
    omega
  rwa [share] at total

/-- An output for the miner and one for a payee. -/
theorem pays_shared {miner payee : TxOut} {amount : Int} {count : CString}
    (free : Pays commitment 0)
    (rest : miner.value = encodeTxValue (available - amount))
    (value : payee.value = encodeTxValue amount) :
    Pays (Body.written count (commitment ++ [miner, payee])).outputs
      available := by
  have total := free.append (Pays.cons rest (pays_singleton value))
  have share : 0 + (available - amount + amount) = available := by omega
  rwa [share] at total

/-- The branch of the dynodes. -/
theorem pays_dynodes (free : Pays commitment 0)
    (written :
      dynodes coind templ answer available commitment = some (after, body)) :
    Pays body.outputs available := by
  simp only [dynodes, Option.bind_eq_bind, Option.bind_eq_some_iff] at written
  obtain ⟨body, packed, ⟨⟩⟩ := written
  exact pays_payeesBody free packed

/-- The branch of the treasury. -/
theorem pays_treasury (free : Pays commitment 0)
    (written :
      treasury coind templ answer available commitment =
        some (after, body)) :
    Pays body.outputs available := by
  simp only [treasury, mapM_eq_some (Due.pack_eq_some coind),
    Option.bind_eq_bind, Option.bind_some, Option.bind_eq_some_iff] at written
  obtain ⟨charity, paid, miner, packed, ⟨⟩⟩ := written
  have total :=
    (free.append
      (Pays.cons (value_of_p2shPackInto paid)
        (pays_dues (treasuryDues answer)))).append
          (pays_singleton (value_of_jobPackTx packed))
  have share :
      0 + (50000000 + ((treasuryDues answer).map Due.amount).sum) +
        (available - 50000000 -
          ((treasuryDues answer).map Due.amount).sum) = available := by
    omega
  rwa [share] at total

/-- The branch of the founder. -/
theorem pays_founder (free : Pays commitment 0)
    (written :
      founder coind templ answer available commitment = some (after, body)) :
    Pays body.outputs available := by
  simp only [founder, Due.pack_eq_some, Option.bind_eq_bind,
    Option.bind_some, Option.bind_eq_some_iff] at written
  obtain ⟨due, -, miner, packed, ⟨⟩⟩ := written
  exact pays_shared free (value_of_jobPackTx packed) due.value_out

/-- The branch of the charity. -/
theorem pays_charity (free : Pays commitment 0)
    (written :
      charity coind templ answer available commitment = some (after, body)) :
    Pays body.outputs available := by
  simp only [charity, Option.bind_eq_bind, Option.bind_eq_some_iff] at written
  obtain ⟨payee, -, miner, packed, charity, paid, ⟨⟩⟩ := written
  exact pays_shared free (value_of_jobPackTx packed) (value_of_jobPackTx paid)

/-- The branch of the masternodes. -/
theorem pays_masternodes (free : Pays commitment 0)
    (written :
      masternodes coind templ answer available commitment =
        some (after, body)) :
    Pays body.outputs available := by
  simp only [masternodes, Option.bind_eq_bind, Option.bind_eq_some_iff]
    at written
  obtain ⟨charity, -, body, packed, ⟨⟩⟩ := written
  exact pays_payeesBody free packed

/-- The payees without a commitment. -/
theorem pays_plainPayees {dues : List Due}
    (written : plainPayees coind available dues = some (after, body)) :
    Pays body.outputs available := by
  simp only [plainPayees, Option.bind_eq_bind, Option.bind_eq_some_iff]
    at written
  obtain ⟨body, packed, ⟨⟩⟩ := written
  exact pays_payeesBody pays_nil packed

/-- The branch of an enforced masternode. -/
theorem pays_enforced (free : Pays commitment 0)
    (written :
      enforced coind templ answer available commitment =
        some (after, body)) :
    Pays body.outputs available := by
  simp only [enforced, Option.bind_eq_bind, Option.bind_eq_some_iff]
    at written
  obtain ⟨charity, paid, miner, packed, ⟨⟩⟩ := written
  have total :=
    free.append
      (Pays.cons (value_of_jobPackTx paid)
        (pays_singleton (value_of_jobPackTx packed)))
  have share :
      0 + (answer.payeeAmount + (available - answer.payeeAmount)) =
        available := by
    omega
  rwa [share] at total

/-- The branch of a masternode that is not enforced. -/
theorem pays_unenforced
    (written : unenforced coind available = some (after, body)) :
    Pays body.outputs available := by
  simp only [unenforced, Option.bind_eq_bind, Option.bind_eq_some_iff]
    at written
  obtain ⟨miner, packed, ⟨⟩⟩ := written
  exact pays_singleton (value_of_jobPackTx packed)

/-- The branch of a coin without payees. -/
theorem pays_plain (free : Pays commitment 0)
    (written :
      plain coind templ available commitment = some (after, body)) :
    Pays body.outputs available := by
  simp only [plain, Option.bind_eq_bind, Option.bind_eq_some_iff] at written
  obtain ⟨miner, packed, ⟨⟩⟩ := written
  have total := free.append (pays_singleton (value_of_jobPackTx packed))
  rwa [zero_add] at total

/-- The cases that pay a payee on top of the value. -/
def Branch.paysOnTop : Branch → Bool
  | .znodes | .donation | .incentive => true
  | _ => false

/-- Each branch that pays within the value pays all of it. -/
theorem pays_bodyOf {branch : Branch} (free : Pays commitment 0)
    (within : branch.paysOnTop = false)
    (written :
      bodyOf coind templ answer available commitment branch =
        some (after, body))
    (reached : body ≠ Body.empty) :
    Pays body.outputs available := by
  have early {returned : CoinbaseCoind} {p : Prop}
      (empty : some (returned, Body.empty) = some (after, body)) : p := by
    cases empty
    exact absurd rfl reached
  cases branch with
  | oldDynodes => exact early written
  | dynodes => exact pays_dynodes free written
  | znodes => cases within
  | treasury => exact pays_treasury free written
  | donation => cases within
  | founder => exact pays_founder free written
  | charity => exact pays_charity free written
  | getwork => exact early written
  | incentive => cases within
  | oldMasternodes => exact early written
  | masternodes => exact pays_masternodes free written
  | goldminenodes => exact pays_plainPayees written
  | eternitynodes => exact pays_plainPayees written
  | systemnodes => exact pays_plainPayees written
  | enforced => exact pays_enforced free written
  | unenforced => exact pays_unenforced written
  | plain => exact pays_plain free written

end Cases

/-! ## The value of the template -/

/-- The case of `prepare` that multiplies the value. -/
def MultipliesValue (coind : CoinbaseCoind) : Prop :=
  coind.rpcencoding = "DCR".toList ∧
    coind.symbol ∉
      ["EGC".toList, "DYN".toList, "LTCR".toList, "XZC".toList]

/-- Without a multiplied value, all of it is available. -/
theorem available_prepare {coind : CoinbaseCoind}
    (keeps : ¬ MultipliesValue coind) (templ : CoinbaseTemplate)
    (answer : CoinbaseAnswer) :
    (prepare coind templ answer).2 = templ.value := by
  rw [prepare]
  split
  · rfl
  split
  · rfl
  split
  · rfl
  split
  · rfl
  split
  · rename_i egc dyn ltcr xzc decred
    refine absurd ⟨decred, ?_⟩ keeps
    simp only [List.mem_cons, List.not_mem_nil, or_false, not_or]
    exact ⟨egc, dyn, ltcr, xzc⟩
  split
  · rfl
  split
  · rfl
  · rfl

/-- The coin is one of those whose outputs exceed the value. -/
def ExceedsValue (coind : CoinbaseCoind) (templ : CoinbaseTemplate)
    (answer : CoinbaseAnswer) : Prop :=
  (branchOf (prepare coind templ answer).1 answer).paysOnTop = true ∨
    MultipliesValue coind

/-- What is written pays the value of the template. -/
theorem pays_of_coinbaseBody {coind after : CoinbaseCoind}
    {templ : CoinbaseTemplate} {answer : CoinbaseAnswer} {body : Body}
    (within : ¬ ExceedsValue coind templ answer)
    (written : coinbaseBody coind templ answer = some (after, body))
    (reached : body ≠ Body.empty) :
    Pays body.outputs templ.value := by
  rw [ExceedsValue, not_or, Bool.not_eq_true] at within
  simp only [coinbaseBody, Option.bind_eq_bind, Option.bind_eq_some_iff]
    at written
  obtain ⟨commitment, committed, written⟩ := written
  have pays :=
    pays_bodyOf (pays_commitmentOf committed) within.1 written reached
  rwa [available_prepare within.2] at pays

/--
Whenever the lock time is appended, the outputs in front of it pay the value
of the template, for all coins but the few that exceed it.  Nothing is asked
of `script2`: a parent of merged mining is among them.
-/
theorem pays_coinbaseBody {coind after : CoinbaseCoind}
    {templ : CoinbaseTemplate} {answer : CoinbaseAnswer} {body : Body}
    (within : ¬ ExceedsValue coind templ answer)
    (written : coinbaseBody coind templ answer = some (after, body))
    (reached : body.locktime = "00000000".toList) :
    (body.outputs.map TxOut.amount).sum % 2 ^ 64 =
      (templ.value % 2 ^ 64).toNat := by
  have nonempty : body ≠ Body.empty := by
    rintro rfl
    exact absurd reached (by decide)
  have pays := pays_of_coinbaseBody within written nonempty
  rw [Pays, Int.ModEq] at pays
  omega

/-- The template of a parent of merged mining. -/
def mergedTemplate : CoinbaseTemplate :=
  { shortTemplate with auxs := [some 0] }

/-- Its coin has a masternode to pay. -/
theorem pays_coinbaseBody_merged :
    coinbaseBody masternodeCoin mergedTemplate bech32Answer =
        some (masternodeCoin, bech32Body) ∧
      (bech32Body.outputs.map TxOut.amount).sum % 2 ^ 64 = 500000000 := by
  have within : ¬ ExceedsValue masternodeCoin mergedTemplate bech32Answer := by
    rw [ExceedsValue, MultipliesValue]
    decide
  have written :
      coinbaseBody masternodeCoin mergedTemplate bech32Answer =
        some (masternodeCoin, bech32Body) := by
    rfl
  exact ⟨written, pays_coinbaseBody within written rfl⟩

end YiimpStratum.Coinbase
