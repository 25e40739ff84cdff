import Mathlib.Data.List.FinRange
import YiimpStratum.Library.Delimited
import YiimpStratum.Util.Double
import YiimpStratum.Util.Strings

/-!
# Subscriptions to algorithms

`client_initialize_multialgo` reads the algorithms that a miner offers from its
password into a table of fixed size, and `client_reset_multialgo` disconnects
the miner when another algorithm pays more.  The scans of the table stop at
the first entry without an algorithm.

A pointer to an algorithm is its position in `g_algos`, whose last entry, with
the empty name, is left out.  The doubles are taken as rational numbers where
nothing is divided.
-/

namespace YiimpStratum.Multialgo

open YiimpStratum
open YiimpStratum.Util

/-- `YAAMP_MAXALGOS` -/
def yaampMaxalgos : Nat :=
  32

/-- The fields of `YAAMP_ALGO` that the subscriptions depend on. -/
structure YaampAlgo where
  name : CString
  factor : Rat
  profit : Rat
  deriving DecidableEq

/-- `YAAMP_CLIENT_ALGO`; `none` is the null pointer. -/
structure ClientAlgo (count : Nat) where
  factor : Rat
  algo : Option (Fin count)
  deriving DecidableEq

/-- An entry with an algorithm. -/
structure Subscription (count : Nat) where
  factor : Rat
  algo : Fin count
  deriving DecidableEq

/-- The fields of `YAAMP_CLIENT` that the subscriptions read or write. -/
structure YaampClient (count : Nat) where
  password : CString
  lastBest : Int
  algosSubscribed : List (ClientAlgo count)

/-- What `client_reset_multialgo` returns, writes and divides by. -/
structure Reset where
  returned : Bool
  lastBest : Int
  divisors : List Rat
  deriving DecidableEq

variable {count : Nat}

/-- The entries of a client after the `memset` that follows its allocation. -/
def noSubscriptions (count : Nat) : List (ClientAlgo count) :=
  List.replicate yaampMaxalgos ⟨0, none⟩

/-- The entries that a scan visits: `none` when it runs past the array. -/
def scanned : List (ClientAlgo count) → Option (List (Subscription count))
  | [] => none
  | entry :: entries =>
      match entry.algo with
      | none => some []
      | some algo =>
          (scanned entries).map fun subscriptions =>
            ⟨entry.factor, algo⟩ :: subscriptions

/-! ## The comparison of the algorithms -/

section Reset

variable (algos : Fin count → YaampAlgo) (currentAlgo : Fin count)
variable (subscriptions : List (Subscription count))

/-- `algo->profit*candidate->factor` -/
def product (candidate : Fin subscriptions.length) : Rat :=
  let subscription := subscriptions.get candidate
  (algos subscription.algo).profit * subscription.factor

/-- The pointers `best` and `current`. -/
structure Candidates (size : Nat) where
  best : Option (Fin size)
  current : Option (Fin size)

/-- One iteration of the inner loop. -/
def visit (i : Fin count) (candidates : Candidates subscriptions.length)
    (candidate : Fin subscriptions.length) :
    Candidates subscriptions.length where
  best :=
    if (subscriptions.get candidate).algo = i then
      match candidates.best with
      | none => some candidate
      | some best =>
          if product algos subscriptions best <
              product algos subscriptions candidate then
            some candidate
          else some best
    else candidates.best
  current :=
    match candidates.current with
    | none =>
        if (subscriptions.get candidate).algo = currentAlgo then some candidate
        else none
    | some current => some current

/-- The two loops of `client_reset_multialgo`. -/
def findCandidates : Candidates subscriptions.length :=
  (List.finRange count).foldl
    (fun candidates i =>
      (List.finRange subscriptions.length).foldl
        (visit algos currentAlgo subscriptions i) candidates)
    ⟨none, none⟩

/-- `client_reset_multialgo` on the entries that its loops visit. -/
def clientResetMultialgo (now lastBest : Int) (first : Bool) : Reset :=
  if subscriptions = [] then ⟨false, lastBest, []⟩
  else
    let candidates := findCandidates algos currentAlgo subscriptions
    match candidates.best, candidates.current with
    | some best, some current =>
        if best = current then ⟨false, now, []⟩
        else if first then ⟨true, lastBest, []⟩
        else
          let subscription := subscriptions.get best
          let profit := (algos subscription.algo).profit
          let e := now - lastBest
          let d :=
            product algos subscriptions best -
              product algos subscriptions current
          let p :=
            ((DoubleValue.number d).div profit).div subscription.factor
          let returned := !p.less (2 / 100) && !(p.mulInt e).less 100
          ⟨returned, lastBest, [profit, subscription.factor]⟩
    | _, _ => ⟨false, now, []⟩

end Reset

/-! ## The password -/

section Password

variable (algos : Fin count → YaampAlgo)

/-- The first entry that is free; the last one when there is none. -/
def firstFree (entries : List (ClientAlgo count)) : Nat :=
  (entries.take (yaampMaxalgos - 1)).findIdx fun entry => entry.algo.isNone

/-- An entry for an algorithm. -/
def subscribe (algo : Fin count) (factor : Rat)
    (entries : List (ClientAlgo count)) : List (ClientAlgo count) :=
  entries.set (firstFree entries) ⟨factor, some algo⟩

/-- The name in a part of the password. -/
def partName (part : CString) : CString :=
  Delimited.before '=' part

variable (atof : CString → Rat)

/-- The number in a part of the password. -/
def partValue (part : CString) : Rat :=
  match Delimited.onward '=' part with
  | [] => 0
  | _ :: text => atof text

/-- The loop over `g_algos` for a part of the password. -/
def subscribePart (entries : List (ClientAlgo count)) (part : CString) :
    List (ClientAlgo count) :=
  (List.finRange count).foldl
    (fun entries i =>
      if (algos i).name = partName part then
        let value := partValue atof part
        subscribe i (if value ≠ 0 then value else (algos i).factor) entries
      else entries)
    entries

/-- The parts of the password that the outer loop goes through. -/
def parts (password : CString) : List CString :=
  (password.take 1023).splitOn ','

/-- The password asks for more than the current algorithm pays. -/
def asksMore (currentAlgo : Fin count) (password : CString) : Bool :=
  match strstr "p=".toList password with
  | none => false
  | some p => decide ((algos currentAlgo).profit < atof (p.drop 2))

/--
`client_initialize_multialgo`: the entries afterwards, and what is returned
when the scan stays inside the array.
-/
def clientInitializeMultialgo (currentAlgo : Fin count) (now : Int)
    (client : YaampClient count) :
    List (ClientAlgo count) × Option Reset :=
  if asksMore algos atof currentAlgo client.password then
    (client.algosSubscribed, some ⟨true, client.lastBest, []⟩)
  else
    let entries :=
      (parts client.password).foldl (subscribePart algos atof)
        client.algosSubscribed
    (entries,
      (scanned entries).map fun subscriptions =>
        clientResetMultialgo algos currentAlgo subscriptions now
          client.lastBest true)

end Password

/-! ## The end of the table -/

/-- The entries that are in use are the first ones. -/
structure Filled (used : Nat) (entries : List (ClientAlgo count)) : Prop where
  length : entries.length = yaampMaxalgos
  inUse :
    ∀ (i : Nat) (bound : i < entries.length),
      (entries.get ⟨i, bound⟩).algo.isSome = decide (i < used)

theorem filled_noSubscriptions : Filled 0 (noSubscriptions count) where
  length := List.length_replicate
  inUse := by simp [noSubscriptions]

namespace Filled

variable {used : Nat} {entries : List (ClientAlgo count)}

/-- The search stops at the last entry when all the others are in use. -/
theorem firstFree_eq (filled : Filled used entries) :
    firstFree entries = min used 31 := by
  have size : (entries.take 31).length = 31 := by
    rw [List.length_take, filled.length]
    rfl
  have taken : ∀ (i : Nat) (bound : i < (entries.take 31).length),
      (entries.take 31)[i].algo.isNone = !decide (i < used) := by
    intro i bound
    have inside : i < entries.length :=
      bound.trans_le (List.length_take_le' _ _)
    rw [List.getElem_take, ← filled.inUse i inside, Option.not_isSome]
    rfl
  change (entries.take 31).findIdx (fun entry => entry.algo.isNone) = _
  by_cases isFree : used < 31
  · rw [Nat.min_eq_left (Nat.le_of_lt isFree),
      List.findIdx_eq (by rw [size]; exact isFree)]
    refine ⟨?_, fun j before => ?_⟩
    · rw [taken]
      simp
    · rw [taken]
      simpa using before
  · rw [Nat.min_eq_right (Nat.le_of_not_lt isFree),
      List.findIdx_eq_length_of_false, size]
    intro entry listed
    obtain ⟨i, bound, rfl⟩ := List.getElem_of_mem listed
    rw [taken, Bool.not_eq_false', decide_eq_true_eq]
    exact (size ▸ bound).trans_le (Nat.le_of_not_lt isFree)

theorem subscribe (filled : Filled used entries) (algo : Fin count)
    (factor : Rat) :
    Filled (used + 1) (Multialgo.subscribe algo factor entries) where
  length := by
    rw [Multialgo.subscribe, List.length_set]
    exact filled.length
  inUse := by
    intro i bound
    have inside : i < entries.length := by
      rw [Multialgo.subscribe, List.length_set] at bound
      exact bound
    have before := filled.inUse i inside
    have size := filled.length
    rw [yaampMaxalgos] at size
    rw [List.get_eq_getElem] at before ⊢
    simp only [Multialgo.subscribe, filled.firstFree_eq, List.getElem_set]
    split
    · simp only [Option.isSome_some]
      symm
      rw [decide_eq_true_eq]
      omega
    · rw [before]
      congr 1
      rw [eq_iff_iff]
      omega

/-- An entry without an algorithm is left unless every entry is in use. -/
theorem exists_null_iff (filled : Filled used entries) :
    (∃ entry ∈ entries, entry.algo = none) ↔ used < yaampMaxalgos := by
  constructor
  · rintro ⟨entry, listed, isNull⟩
    obtain ⟨⟨i, bound⟩, rfl⟩ := List.get_of_mem listed
    have notUsed := filled.inUse i bound
    rw [isNull, Option.isSome_none, eq_comm, decide_eq_false_iff_not]
      at notUsed
    rw [filled.length] at bound
    exact (Nat.le_of_not_lt notUsed).trans_lt bound
  · intro isFree
    rw [← filled.length] at isFree
    have notUsed := filled.inUse used isFree
    rw [decide_eq_false (Nat.lt_irrefl used), Option.isSome_eq_false_iff,
      Option.isNone_iff_eq_none] at notUsed
    exact ⟨_, List.get_mem _ _, notUsed⟩

end Filled

/-- A scan stays inside the array when an entry ends it. -/
theorem scanned_isSome_iff (entries : List (ClientAlgo count)) :
    (scanned entries).isSome = true ↔
      ∃ entry ∈ entries, entry.algo = none := by
  induction entries with
  | nil =>
      simp [scanned]
  | cons entry entries ih =>
      rw [scanned]
      cases isAlgo : entry.algo with
      | none => simp [isAlgo]
      | some algo => simp [ih, isAlgo]

section Password

variable (algos : Fin count → YaampAlgo) (atof : CString → Rat)

/-- The number of the algorithms with the name in a part of the password. -/
def named (part : CString) : Nat :=
  (List.finRange count).countP fun i => (algos i).name = partName part

theorem Filled.subscribePart {used : Nat} {entries : List (ClientAlgo count)}
    (filled : Filled used entries) (part : CString) :
    Filled (used + named algos part)
      (subscribePart algos atof entries part) := by
  rw [Multialgo.subscribePart, named]
  generalize List.finRange count = indices
  induction indices generalizing used entries with
  | nil =>
      exact filled
  | cons i indices ih =>
      rw [List.foldl_cons]
      by_cases same : (algos i).name = partName part
      · rw [if_pos same, List.countP_cons_of_pos (by simpa using same),
          Nat.add_comm _ 1, ← Nat.add_assoc]
        exact ih (filled.subscribe i _)
      · rw [if_neg same, List.countP_cons_of_neg (by simpa using same)]
        exact ih filled

theorem Filled.subscribeParts {used : Nat} {entries : List (ClientAlgo count)}
    (filled : Filled used entries) (parts : List CString) :
    Filled (used + (parts.map (named algos)).sum)
      (parts.foldl (Multialgo.subscribePart algos atof) entries) := by
  induction parts generalizing used entries with
  | nil =>
      exact filled
  | cons part parts ih =>
      rw [List.foldl_cons, List.map_cons, List.sum_cons, ← Nat.add_assoc]
      exact ih (filled.subscribePart algos atof part)

/--
An entry without an algorithm is left, and the scan stays inside the array,
exactly when the password asks for more than the current algorithm pays or
names at most 31 algorithms.
-/
theorem terminated_iff (currentAlgo : Fin count) (now lastBest : Int)
    (password : CString) :
    let initialized :=
      clientInitializeMultialgo algos atof currentAlgo now
        ⟨password, lastBest, noSubscriptions count⟩
    ((∃ entry ∈ initialized.1, entry.algo = none) ∧
        initialized.2.isSome = true) ↔
      asksMore algos atof currentAlgo password = true ∨
        ((parts password).map (named algos)).sum < yaampMaxalgos := by
  intro initialized
  cases asks : asksMore algos atof currentAlgo password with
  | true =>
      have early : initialized =
          (noSubscriptions count, some ⟨true, lastBest, []⟩) := by
        simp only [initialized, clientInitializeMultialgo, asks, if_true]
      rw [early]
      refine iff_of_true ⟨?_, rfl⟩ (.inl rfl)
      exact filled_noSubscriptions.exists_null_iff.mpr (by decide)
  | false =>
      have filled :=
        filled_noSubscriptions.subscribeParts algos atof (parts password)
      rw [Nat.zero_add] at filled
      simp only [initialized, clientInitializeMultialgo, asks,
        Bool.false_eq_true, if_false, Option.isSome_map, scanned_isSome_iff,
        and_self, false_or]
      exact filled.exists_null_iff

end Password

/-! ## The table of the program -/

/-- The names in `g_algos`. -/
def algoNames : List CString :=
  ["equihash", "sha256", "scrypt", "scryptn", "neoscrypt", "c11", "x11", "x12",
   "x13", "x14", "x15", "x17", "x22i", "x11evo", "xevan", "x16r", "x16rv2",
   "x16s", "timetravel", "bitcore", "exosis", "hsr", "hmq1725", "jha", "allium",
   "lyra2", "lyra2v2", "lyra2v3", "lyra2z", "lyra2zz", "bastion", "blake",
   "blakecoin", "blake2b", "blake2s", "vanilla", "decred", "deep", "fresh",
   "quark", "nist5", "qubit", "groestl", "dmd-gr", "myr-gr", "skein", "sonoa",
   "tribus", "keccak", "keccakc", "hex", "phi", "phi2", "polytimos", "skunk",
   "bmw", "lbk3", "lbry", "luffa", "penta", "rainforest", "skein2", "yescrypt",
   "yescryptR16", "yescryptR32", "zr5", "a5a", "hive", "m7m", "veltor",
   "velvet", "argon2", "argon2d-dyn", "vitalium", "aergo", "sha256t", "sha256q",
   "sib", "whirlcoin", "whirlpool", "whirlpoolx"].map String.toList

/-- `g_algos` before the database has set the profits. -/
def gAlgos (i : Fin algoNames.length) : YaampAlgo where
  name := algoNames.get i
  factor := 0
  profit := 0

/-- A password that repeats a name 32 times. -/
def repeatedName : CString :=
  List.intercalate [','] (List.replicate 32 "x11".toList)

theorem named_repeatedName :
    ((parts repeatedName).map (named gAlgos)).sum = 32 := by
  have parted : parts repeatedName = List.replicate 32 "x11".toList := by
    decide
  have once : named gAlgos "x11".toList = 1 := by
    decide
  rw [parted, List.map_replicate, once]
  rfl

/-- The password leaves no entry to end the scans. -/
theorem not_terminated_repeatedName :
    let initialized :=
      clientInitializeMultialgo gAlgos (fun text => (atoi text : Rat))
        ⟨0, by decide⟩ 1000
        ⟨repeatedName, 1000, noSubscriptions algoNames.length⟩
    ¬ ∃ entry ∈ initialized.1, entry.algo = none := by
  intro initialized
  have asks :
      asksMore gAlgos (fun text => (atoi text : Rat)) ⟨0, by decide⟩
        repeatedName = false := by
    decide
  have filled :=
    filled_noSubscriptions.subscribeParts gAlgos
      (fun text => (atoi text : Rat)) (parts repeatedName)
  rw [named_repeatedName] at filled
  simp only [initialized, clientInitializeMultialgo, asks,
    Bool.false_eq_true, if_false, filled.exists_null_iff]
  decide

end YiimpStratum.Multialgo
