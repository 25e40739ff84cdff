import YiimpStratum.Coinbase.Exact

/-!
# The cases of `coinbase_create`

For every place where `coinbase_create` ends this says when what it has written
is a count, that many exact outputs and a lock time.
-/

namespace YiimpStratum.Coinbase

open YiimpStratum.Util
open YiimpStratum.Submit

/-! ## Conditions -/

/-- The outputs of the payees are exact and fit into `script_dests`. -/
structure DuesFit (dues : List Due) : Prop where
  each : ∀ due ∈ dues, due.Fits
  room : (dues.map Due.size).sum < 2048

/-- What a case needs from the addresses of its payees. -/
def PayeesFit (coind : CoinbaseCoind) (answer : CoinbaseAnswer)
    (available : Int) : Branch → Prop
  | .oldDynodes => False
  | .dynodes => DuesFit (dynodeDues answer)
  | .znodes => Base58Fits coind.charityAddress
  | .treasury => ∀ due ∈ treasuryDues answer, due.Fits
  | .donation => coind.charityAddress.length < 256
  | .founder => ∃ due ∈ founderDue coind answer, due.Fits
  | .charity => ∃ payee ∈ charityPayee coind answer.payee, Base58Fits payee
  | .getwork => False
  | .incentive =>
      ∃ incentive ∈ answer.incentive,
        ∃ payee ∈ charityPayee coind incentive.address, Base58Fits payee
  | .oldMasternodes => False
  | .masternodes =>
      ∃ charity ∈ masternodeCharity coind answer available,
        DuesFit (charity ++ masternodeDues coind answer)
  | .goldminenodes => DuesFit (goldminenodeDues answer)
  | .eternitynodes => DuesFit (eternitynodeDues answer)
  | .systemnodes => DuesFit (systemnodeDues answer)
  | .enforced => Base58Fits (enforcedPayee answer)
  | .unenforced => True
  | .plain => True

/-- The cases that write the commitment of a template. -/
def Branch.commits : Branch → Bool
  | .znodes | .incentive | .goldminenodes | .eternitynodes | .systemnodes
  | .unenforced => false
  | _ => true

/-- A case writes a count, that many exact outputs and a lock time. -/
def Writes (written : Option (CoinbaseCoind × Body)) : Prop :=
  ∃ result ∈ written, result.2.Exact

/-! ## The miner among other outputs -/

/-- What a case writes once the output of the miner is packed. -/
theorem writes_miner_iff (coind after : CoinbaseCoind) (amount : Int)
    {count : CString} {front back : List TxOut}
    (counted : count = hex2 (front.length + 1 + back.length))
    (few : front.length + 1 + back.length < 253) :
    Writes
        ((jobPackTx coind amount none).bind fun miner =>
          some (after, Body.written count (front ++ miner :: back))) ↔
      (∀ out ∈ front, out.Exact) ∧ MinerFits coind ∧
        ∀ out ∈ back, out.Exact := by
  have length : ∀ miner : TxOut,
      (front ++ miner :: back).length = front.length + 1 + back.length := by
    intro miner
    rw [List.length_append, List.length_cons]
    omega
  rw [← exists_miner_iff coind amount, Writes]
  constructor
  · rintro ⟨result, member, exactBody⟩
    obtain ⟨miner, packed, rest⟩ := Option.bind_eq_some_iff.mp member
    obtain rfl := Option.some.inj rest
    obtain ⟨-, -, outputs⟩ := (exact_written_iff ..).mp exactBody
    rw [List.forall_mem_append, List.forall_mem_cons] at outputs
    exact ⟨outputs.1, ⟨miner, packed, outputs.2.1⟩, outputs.2.2⟩
  · rintro ⟨first, ⟨miner, packed, exactMiner⟩, last⟩
    refine ⟨_, Option.bind_eq_some_iff.mpr ⟨miner, packed, rfl⟩, ?_⟩
    refine (exact_written_iff ..).mpr ⟨?_, ?_, ?_⟩
    · rw [length, counted]
    · rw [length]
      exact few
    · rw [List.forall_mem_append, List.forall_mem_cons]
      exact ⟨first, exactMiner, last⟩

/-- The miner before the other outputs, and no commitment. -/
theorem writes_first_iff (coind after : CoinbaseCoind) (amount : Int)
    {count : CString} {back : List TxOut}
    (counted : count = hex2 (1 + back.length)) (few : back.length ≤ 5) :
    Writes
        ((jobPackTx coind amount none).bind fun miner =>
          some (after, Body.written count (miner :: back))) ↔
      MinerFits coind ∧ ∀ out ∈ back, out.Exact := by
  have length : ([] : List TxOut).length + 1 + back.length =
      1 + back.length := by
    rw [List.length_nil, Nat.zero_add]
  refine (writes_miner_iff coind after amount
    (counted.trans (congrArg hex2 length.symm)) (by omega)).trans ?_
  exact and_iff_right fun _ member => absurd member List.not_mem_nil

section Commitment

variable {coind : CoinbaseCoind} {templ : CoinbaseTemplate}
variable {commitment : List TxOut}

theorem Commits.length_le (commits : Commits coind templ commitment) :
    commitment.length ≤ 1 := by
  have length := commits.length
  rw [npayeesOf] at length
  split at length <;> omega

theorem Commits.threeOrTwo (commits : Commits coind templ commitment) :
    threeOrTwo templ = hex2 (commitment.length + 1 + 1) := by
  rw [commits.length, npayeesOf, Coinbase.threeOrTwo]
  split <;> decide

/-- The commitment, the miner and one payee after it. -/
theorem writes_payee_iff (commits : Commits coind templ commitment)
    (packer after : CoinbaseCoind) (amount : Int) (payee : TxOut) :
    Writes
        ((jobPackTx packer amount none).bind fun miner =>
          some
            (after,
              Body.written (threeOrTwo templ)
                (commitment ++ [miner, payee]))) ↔
      CommitmentHex coind templ ∧ MinerFits packer ∧ payee.Exact := by
  have short := commits.length_le
  rw [writes_miner_iff packer after amount commits.threeOrTwo
      (by rw [List.length_singleton]; omega),
    commits.outs, List.forall_mem_singleton]

end Commitment

/-! ## Coins with several payees -/

theorem foldlM_add (coind : CoinbaseCoind) (dues : List Due) (dests : Dests) :
    dues.foldlM (Dests.add coind) dests =
      some
        { npayees := dests.npayees + dues.length
          available := dests.available - (dues.map Due.amount).sum
          scriptDests := dests.scriptDests ++ dues.map Due.out } := by
  induction dues generalizing dests with
  | nil =>
      simp
  | cons due dues ih =>
      rw [List.foldlM_cons, Dests.add, Due.pack_eq_some]
      simp only [Option.bind_eq_bind, Option.bind_some, ih,
        List.length_cons, List.map_cons, List.sum_cons, List.append_assoc,
        List.singleton_append]
      congr 2
      · omega
      · omega

theorem length_flatMap_out (dues : List Due) :
    ((dues.map Due.out).flatMap TxOut.text).length =
      (dues.map Due.size).sum := by
  induction dues with
  | nil =>
      rfl
  | cons due dues ih =>
      rw [List.map_cons, List.map_cons, List.flatMap_cons,
        List.length_append, List.sum_cons, Due.length_out, ih]

/-- Few payees fit into `script_dests`. -/
theorem length_le_sum_size (dues : List Due) :
    24 * dues.length ≤ (dues.map Due.size).sum := by
  induction dues with
  | nil =>
      exact Nat.zero_le _
  | cons due dues ih =>
      have one : 24 ≤ due.size := by
        rw [Due.size]
        split <;> omega
      rw [List.length_cons, List.map_cons, List.sum_cons]
      omega

theorem writes_payeesBody_iff (coind after : CoinbaseCoind)
    {commitment : List TxOut} {npayees : Nat}
    (counted : commitment.length + 1 = npayees) (few : npayees ≤ 2)
    (available : Int) (dues : List Due) :
    Writes
        ((payeesBody coind commitment npayees available dues).bind fun body =>
          some (after, body)) ↔
      (∀ out ∈ commitment, out.Exact) ∧ MinerFits coind ∧ DuesFit dues := by
  have many := length_le_sum_size dues
  have outs : (∀ out ∈ dues.map Due.out, out.Exact) ↔
      ∀ due ∈ dues, due.Fits := by
    rw [List.forall_mem_map]
    exact forall₂_congr fun due _ => due.exact_out_iff
  simp only [payeesBody, foldlM_add, List.nil_append, sprintfInto,
    length_flatMap_out, Option.bind_eq_bind, Option.bind_some,
    Option.bind_assoc]
  by_cases room : (dues.map Due.size).sum < 2048
  · have length :
        (commitment ++ dues.map Due.out).length + 1 + ([] : List TxOut).length =
          npayees + dues.length := by
      rw [List.length_append, List.length_map, List.length_nil]
      omega
    have miner :=
      writes_miner_iff coind after (available - (dues.map Due.amount).sum)
        (congrArg hex2 length.symm) (by rw [length]; omega)
    rw [if_pos room, Option.bind_some]
    refine miner.trans ?_
    rw [List.forall_mem_append, outs]
    constructor
    · rintro ⟨⟨first, each⟩, packed, -⟩
      exact ⟨first, packed, each, room⟩
    · rintro ⟨first, packed, each, -⟩
      exact ⟨⟨first, each⟩, packed,
        fun _ member => absurd member List.not_mem_nil⟩
  · rw [if_neg room, Option.bind_none]
    refine iff_of_false ?_ fun fits => room fits.2.2.room
    rintro ⟨_, member, -⟩
    exact absurd member (by simp)

theorem writes_plainPayees_iff (coind : CoinbaseCoind) (available : Int)
    (dues : List Due) :
    Writes (plainPayees coind available dues) ↔
      MinerFits coind ∧ DuesFit dues := by
  refine (writes_payeesBody_iff coind coind rfl (by decide) available
    dues).trans ?_
  exact and_iff_right fun _ member => absurd member List.not_mem_nil

/-! ## Every case -/

section Cases

variable {coind : CoinbaseCoind} {templ : CoinbaseTemplate}
variable {answer : CoinbaseAnswer} {commitment : List TxOut}

theorem not_writes_none : ¬ Writes none := by
  rintro ⟨_, ⟨⟩, -⟩

theorem not_writes_empty (after : CoinbaseCoind) :
    ¬ Writes (some (after, Body.empty)) := by
  rintro ⟨_, ⟨⟩, exactBody⟩
  exact not_exact_empty exactBody

theorem Commits.npayees_le (commits : Commits coind templ commitment) :
    npayeesOf templ ≤ 2 := by
  have short := commits.length_le
  have length := commits.length
  omega

theorem writes_dynodes_iff (commits : Commits coind templ commitment)
    (packer : CoinbaseCoind) (available : Int) :
    Writes (dynodes packer templ answer available commitment) ↔
      CommitmentHex coind templ ∧ MinerFits packer ∧
        DuesFit (dynodeDues answer) := by
  rw [← commits.outs]
  exact writes_payeesBody_iff packer packer commits.length
    commits.npayees_le available _

theorem writes_masternodes_iff (commits : Commits coind templ commitment)
    (packer : CoinbaseCoind) (available : Int) :
    Writes (masternodes packer templ answer available commitment) ↔
      CommitmentHex coind templ ∧ MinerFits packer ∧
        ∃ charity ∈ masternodeCharity packer answer available,
          DuesFit (charity ++ masternodeDues packer answer) := by
  rw [← commits.outs, masternodes]
  cases masternodeCharity packer answer available with
  | none =>
      refine iff_of_false not_writes_none ?_
      rintro ⟨-, -, _, ⟨⟩, -⟩
  | some charity =>
      refine (writes_payeesBody_iff packer _ commits.length
        commits.npayees_le available _).trans ?_
      refine and_congr_right fun _ => and_congr_right fun _ => ?_
      constructor
      · exact fun fits => ⟨charity, rfl, fits⟩
      · rintro ⟨_, ⟨⟩, fits⟩
        exact fits

theorem mapM_eq_some {α β : Type} {pack : α → Option β} {out : α → β}
    (packed : ∀ value, pack value = some (out value)) (values : List α) :
    values.mapM pack = some (values.map out) := by
  induction values with
  | nil =>
      rfl
  | cons value values ih =>
      rw [List.mapM_cons, packed, ih]
      rfl

/-- The four fixed addresses are decoded. -/
theorem exact_znodePayees_iff (coind : CoinbaseCoind) (amount : Int) :
    (∀ out ∈ (znodePayees coind).map fun payee =>
        keyOut amount (scriptPayee payee), out.Exact) ↔
      Base58Fits coind.charityAddress := by
  have fixed : ∀ payee ∈
      ["aCAgTPgtYcA4EysU4UKC86EQd5cTtHtCcr".toList,
        "aQ18FBVFtnueucZKeVg4srhmzbpAeb1KoN".toList,
        "a1HwTdCmQV3NspP2QqCGpehoFpi8NY4Zg3".toList,
        "a1kCCGddf5pMXSipLVD9hBG2MGGVNaJ15U".toList],
      (base58Decode payee).1 = true := by
    decide
  simp only [base58Decode_iff, List.forall_mem_cons] at fixed
  obtain ⟨first, third, fourth, fifth, -⟩ := fixed
  simp only [znodePayees, List.map_cons, List.map_nil,
    List.forall_mem_cons, exact_scriptPayee_iff]
  constructor
  · exact fun fits => fits.2.1
  · intro fits
    exact ⟨first, fits, third, fourth, fifth,
      fun _ member => absurd member List.not_mem_nil⟩

theorem writes_znodes_iff (available : Int) :
    Writes (znodes coind available) ↔
      MinerFits coind ∧ Base58Fits coind.charityAddress := by
  have packed := mapM_eq_some (fun payee =>
    jobPackTx_some coind
      ((percentOf available coind.charityPercent).tdiv 5)
      (scriptPayee payee)) (znodePayees coind)
  rw [← exact_znodePayees_iff coind
    ((percentOf available coind.charityPercent).tdiv 5)]
  simp only [znodes, packed, Option.bind_eq_bind, Option.bind_some]
  refine writes_first_iff coind coind available ?_ ?_
  · rw [List.length_map]
    exact (by decide : "06".toList = hex2 (1 + 5))
  · rw [List.length_map]
    exact le_refl 5

/-- The coin `STAK` has at most one payee besides its treasury. -/
theorem length_treasuryDues_le (answer : CoinbaseAnswer) :
    (treasuryDues answer).length ≤ 1 := by
  rw [treasuryDues, nodeDues]
  split
  · exact Option.length_toList_le
  · exact Nat.zero_le 1

theorem writes_treasury_iff (commits : Commits coind templ commitment)
    (packer : CoinbaseCoind) (available : Int) :
    Writes (treasury packer templ answer available commitment) ↔
      CommitmentHex coind templ ∧ MinerFits packer ∧
        ∀ due ∈ treasuryDues answer, due.Fits := by
  have few := length_treasuryDues_le answer
  have short := commits.length_le
  have length := commits.length
  have outs : (∀ out ∈ (treasuryDues answer).map Due.out, out.Exact) ↔
      ∀ due ∈ treasuryDues answer, due.Fits := by
    rw [List.forall_mem_map]
    exact forall₂_congr fun due _ => due.exact_out_iff
  simp only [treasury, mapM_eq_some (Due.pack_eq_some packer),
    p2shPackInto_scriptPayee (by decide : 256 ≤ 1024),
    Option.bind_eq_bind, Option.bind_some]
  refine (writes_miner_iff packer packer _ ?_ ?_).trans ?_
  · rw [List.length_append, List.length_cons, List.length_map,
      List.length_nil]
    congr 1
    omega
  · rw [List.length_append, List.length_cons, List.length_map,
      List.length_nil]
    omega
  · rw [List.forall_mem_append, List.forall_mem_cons, commits.outs, outs,
      iff_true_intro (exact_p2shOut_scriptPayee _ _), true_and]
    constructor
    · rintro ⟨⟨hex, each⟩, miner, -⟩
      exact ⟨hex, miner, each⟩
    · rintro ⟨hex, miner, each⟩
      exact ⟨⟨hex, each⟩, miner,
        fun _ member => absurd member List.not_mem_nil⟩

theorem writes_donation_iff (commits : Commits coind templ commitment)
    (packer : CoinbaseCoind) (available : Int) :
    Writes (donation packer templ answer available commitment) ↔
      CommitmentHex coind templ ∧ MinerFits packer ∧
        packer.charityAddress.length < 256 := by
  rw [donation, sprintfInto]
  by_cases short : packer.charityAddress.length < 256
  · rw [if_pos short, iff_true_intro short]
    simp only [p2shPackInto_scriptPayee (by decide : 256 ≤ 1024),
      Option.bind_eq_bind, Option.bind_some]
    rw [writes_payee_iff commits,
      iff_true_intro (exact_p2shOut_scriptPayee _ _)]
  · rw [if_neg short]
    exact iff_of_false not_writes_none fun fits => short fits.2.2

theorem writes_founder_iff (commits : Commits coind templ commitment)
    (packer : CoinbaseCoind) (available : Int) :
    Writes (founder packer templ answer available commitment) ↔
      CommitmentHex coind templ ∧ MinerFits packer ∧
        ∃ due ∈ founderDue packer answer, due.Fits := by
  rw [founder]
  cases founderDue packer answer with
  | none =>
      refine iff_of_false not_writes_none ?_
      rintro ⟨-, -, _, ⟨⟩, -⟩
  | some due =>
      simp only [Due.pack_eq_some, Option.bind_eq_bind, Option.bind_some]
      rw [writes_payee_iff commits, due.exact_out_iff]
      simp

theorem writes_charity_iff (commits : Commits coind templ commitment)
    (packer : CoinbaseCoind) (available : Int) :
    Writes (charity packer templ answer available commitment) ↔
      CommitmentHex coind templ ∧ MinerFits packer ∧
        ∃ payee ∈ charityPayee packer answer.payee, Base58Fits payee := by
  rw [charity]
  cases charityPayee packer answer.payee with
  | none =>
      refine iff_of_false not_writes_none ?_
      rintro ⟨-, -, _, ⟨⟩, -⟩
  | some payee =>
      simp only [jobPackTx_some, Option.bind_eq_bind, Option.bind_some]
      rw [writes_payee_iff commits, exact_scriptPayee_iff]
      simp

theorem writes_incentive_iff (available : Int) :
    Writes (incentive coind answer available) ↔
      MinerFits coind ∧
        ∃ incentive ∈ answer.incentive,
          ∃ payee ∈ charityPayee coind incentive.address,
            Base58Fits payee := by
  rw [incentive]
  cases answer.incentive with
  | none =>
      refine iff_of_false not_writes_none ?_
      rintro ⟨-, _, ⟨⟩, -⟩
  | some incentive =>
      simp only [Option.bind_eq_bind, Option.bind_some]
      cases found : charityPayee coind incentive.address with
      | none =>
          refine iff_of_false not_writes_none ?_
          rintro ⟨-, _, ⟨⟩, _, member, -⟩
          rw [found] at member
          exact absurd member (by simp)
      | some payee =>
          simp only [jobPackTx_some, Option.bind_some]
          refine (writes_first_iff coind _ available ?_ ?_).trans
            (and_congr_right fun _ => ?_)
          · exact (by decide : "02".toList = hex2 (1 + 1))
          · exact (by decide : 1 ≤ 5)
          · rw [List.forall_mem_singleton, exact_scriptPayee_iff]
            simp [found]

theorem writes_enforced_iff (commits : Commits coind templ commitment)
    (packer : CoinbaseCoind) (available : Int) :
    Writes (enforced packer templ answer available commitment) ↔
      CommitmentHex coind templ ∧ MinerFits packer ∧
        Base58Fits (enforcedPayee answer) := by
  have short := commits.length_le
  rw [← exact_scriptPayee_iff answer.payeeAmount]
  simp only [enforced, jobPackTx_some, Option.bind_eq_bind,
    Option.bind_some]
  generalize keyOut answer.payeeAmount (scriptPayee (enforcedPayee answer)) =
    charity
  have length :
      (commitment ++ [charity]).length + 1 + ([] : List TxOut).length =
        commitment.length + 1 + 1 := by
    rw [List.length_append]
    rfl
  have miner := writes_miner_iff packer packer
    (available - answer.payeeAmount)
    (commits.threeOrTwo.trans (congrArg hex2 length.symm))
    (by rw [length]; omega)
  simp only [List.append_assoc, List.singleton_append] at miner
  rw [miner, List.forall_mem_append, List.forall_mem_singleton,
    commits.outs]
  constructor
  · rintro ⟨⟨hex, exactCharity⟩, packed, -⟩
    exact ⟨hex, packed, exactCharity⟩
  · rintro ⟨hex, packed, exactCharity⟩
    exact ⟨⟨hex, exactCharity⟩, packed,
      fun _ member => absurd member List.not_mem_nil⟩

theorem writes_unenforced_iff (available : Int) :
    Writes (unenforced coind available) ↔ MinerFits coind := by
  refine (writes_first_iff coind coind available ?_ ?_).trans ?_
  · exact (by decide : "01".toList = hex2 (1 + 0))
  · exact Nat.zero_le 5
  · exact and_iff_left fun _ member => absurd member List.not_mem_nil

theorem writes_plain_iff (commits : Commits coind templ commitment)
    (packer : CoinbaseCoind) (available : Int) :
    Writes (plain packer templ available commitment) ↔
      CommitmentHex coind templ ∧ MinerFits packer := by
  have short := commits.length_le
  have counted :
      (if templ.hasSegwitTxs then "02".toList else "01".toList) =
        hex2 (commitment.length + 1 + ([] : List TxOut).length) := by
    rw [List.length_nil, Nat.add_zero, commits.length, npayeesOf]
    split <;> decide
  refine (writes_miner_iff packer packer available counted ?_).trans ?_
  · rw [List.length_nil]
    omega
  · rw [commits.outs]
    simp

/-- Every case writes exact outputs under its own condition. -/
theorem writes_bodyOf_iff (commits : Commits coind templ commitment)
    (packer : CoinbaseCoind) (available : Int) (branch : Branch) :
    Writes (bodyOf packer templ answer available commitment branch) ↔
      (branch.commits = true → CommitmentHex coind templ) ∧
        MinerFits packer ∧ PayeesFit packer answer available branch := by
  have committed {p q : Prop} : ((true = true → p) ∧ q) ↔ p ∧ q := by
    rw [forall_prop_of_true rfl]
  have uncommitted {p q : Prop} : ((false = true → p) ∧ q) ↔ q :=
    and_iff_right fun given => absurd given Bool.false_ne_true
  have early (after : CoinbaseCoind) {p q : Prop} :
      Writes (some (after, Body.empty)) ↔ p ∧ q ∧ False :=
    iff_of_false (not_writes_empty after) fun fits => fits.2.2
  cases branch with
  | oldDynodes =>
      exact early _
  | dynodes =>
      exact (writes_dynodes_iff commits packer available).trans committed.symm
  | znodes =>
      exact (writes_znodes_iff available).trans uncommitted.symm
  | treasury =>
      exact (writes_treasury_iff commits packer available).trans committed.symm
  | donation =>
      exact (writes_donation_iff commits packer available).trans committed.symm
  | founder =>
      exact (writes_founder_iff commits packer available).trans committed.symm
  | charity =>
      exact (writes_charity_iff commits packer available).trans committed.symm
  | getwork =>
      exact early _
  | incentive =>
      exact (writes_incentive_iff available).trans uncommitted.symm
  | oldMasternodes =>
      exact early _
  | masternodes =>
      exact (writes_masternodes_iff commits packer available).trans
        committed.symm
  | goldminenodes =>
      exact (writes_plainPayees_iff packer available _).trans
        uncommitted.symm
  | eternitynodes =>
      exact (writes_plainPayees_iff packer available _).trans
        uncommitted.symm
  | systemnodes =>
      exact (writes_plainPayees_iff packer available _).trans
        uncommitted.symm
  | enforced =>
      exact (writes_enforced_iff commits packer available).trans committed.symm
  | unenforced =>
      exact (writes_unenforced_iff available).trans
        ((and_iff_left trivial).symm.trans uncommitted.symm)
  | plain =>
      refine (writes_plain_iff commits packer available).trans ?_
      exact (and_congr_right fun _ => (and_iff_left trivial).symm).trans
        committed.symm

end Cases

end YiimpStratum.Coinbase
