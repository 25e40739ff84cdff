import YiimpStratum.Object
import YiimpStratum.Util.Hex

/-!
# The list of shares

The part of `share.cpp` that records submissions and looks for duplicates.
The duplicate key is the job number with the strings `extranonce2`, `ntime`,
`nonce` and `nonce1`; the solution does not take part in it.

Credit for workers is kept in a list of its own that no function here reads.
-/

namespace YiimpStratum

open YiimpStratum.Util

/-- `YAAMP_SHARE` -/
structure YaampShare extends YaampObject where
  jobid : Nat
  extranonce2 : CString
  ntime : CString
  nonce : CString
  nonce1 : CString

namespace YaampShare

/-- The comparison made by `share_find`. -/
def hasKey
    (jobid : Nat) (extranonce2 ntime nonce nonce1 : CString)
    (share : YaampShare) : Bool :=
  share.jobid == jobid && share.extranonce2 == extranonce2 &&
    share.ntime == ntime && share.nonce == nonce && share.nonce1 == nonce1

/-- `object_delete` on a share. -/
def delete (share : YaampShare) : YaampShare :=
  { share with toYaampObject := share.toYaampObject.delete }

def setHeader (header : YaampObject) (share : YaampShare) : YaampShare :=
  { share with toYaampObject := header }

end YaampShare

/-- The share that `share_add` appends. -/
def newShare
    (jobid : Nat) (extranonce2 ntime nonce nonce1 : CString) : YaampShare where
  toYaampObject := YaampObject.zeroed
  jobid := jobid
  extranonce2 := extranonce2
  ntime := ntime
  nonce := nonce
  nonce1 := nonce1

/-- `share_add` -/
def shareAdd
    (shares : List YaampShare) (jobid : Nat)
    (extranonce2 ntime nonce nonce1 : CString) : List YaampShare :=
  shares ++ [newShare jobid extranonce2 ntime nonce nonce1]

/-- `share_find` -/
def shareFind
    (shares : List YaampShare) (jobid : Nat)
    (extranonce2 ntime nonce nonce1 : CString) : Option YaampShare :=
  shares.find? fun share =>
    !share.deleted && share.hasKey jobid extranonce2 ntime nonce nonce1

/-- `share_prune`, with the search for the job of a share. -/
def sharePrune (jobListed : Nat → Bool) (shares : List YaampShare) :
    List YaampShare :=
  shares.map fun share =>
    if share.deleted || jobListed share.jobid then share else share.delete

/-- `object_prune` on the list of shares. -/
def pruneShares (shares : List YaampShare) : List YaampShare :=
  objectPrune YaampShare.toYaampObject YaampShare.setHeader shares

/-! ## Live shares -/

/-- A share with this key is in the list and not deleted. -/
def ShareLive
    (shares : List YaampShare) (jobid : Nat)
    (extranonce2 ntime nonce nonce1 : CString) : Prop :=
  ∃ share ∈ shares, share.deleted = false ∧
    share.hasKey jobid extranonce2 ntime nonce nonce1 = true

theorem shareFind_isSome_iff
    {shares : List YaampShare} {jobid : Nat}
    {extranonce2 ntime nonce nonce1 : CString} :
    (shareFind shares jobid extranonce2 ntime nonce nonce1).isSome ↔
      ShareLive shares jobid extranonce2 ntime nonce nonce1 := by
  rw [shareFind, List.find?_isSome]
  simp [ShareLive]

theorem hasKey_newShare_iff
    {jobid otherJobid : Nat}
    {extranonce2 ntime nonce nonce1 : CString}
    {otherExtranonce2 otherNtime otherNonce otherNonce1 : CString} :
    (newShare otherJobid otherExtranonce2 otherNtime otherNonce
        otherNonce1).hasKey jobid extranonce2 ntime nonce nonce1 = true ↔
      otherJobid = jobid ∧ otherExtranonce2 = extranonce2 ∧
        otherNtime = ntime ∧ otherNonce = nonce ∧
          otherNonce1 = nonce1 := by
  simp [YaampShare.hasKey, newShare, and_assoc]

section Live

variable {shares : List YaampShare} {jobid : Nat}
variable {extranonce2 ntime nonce nonce1 : CString}

theorem shareLive_shareAdd_iff
    {otherJobid : Nat}
    {otherExtranonce2 otherNtime otherNonce otherNonce1 : CString} :
    ShareLive
        (shareAdd shares otherJobid otherExtranonce2 otherNtime otherNonce
          otherNonce1)
        jobid extranonce2 ntime nonce nonce1 ↔
      ShareLive shares jobid extranonce2 ntime nonce nonce1 ∨
        otherJobid = jobid ∧ otherExtranonce2 = extranonce2 ∧
          otherNtime = ntime ∧ otherNonce = nonce ∧
            otherNonce1 = nonce1 := by
  rw [ShareLive, shareAdd]
  constructor
  · rintro ⟨share, listed, alive, key⟩
    rcases List.mem_append.mp listed with old | new
    · exact Or.inl ⟨share, old, alive, key⟩
    · rw [List.mem_singleton.mp new] at key
      exact Or.inr (hasKey_newShare_iff.mp key)
  · rintro (⟨share, listed, alive, key⟩ | same)
    · exact ⟨share, List.mem_append_left _ listed, alive, key⟩
    · exact ⟨_, List.mem_append_right _ (List.mem_singleton_self _), rfl,
        hasKey_newShare_iff.mpr same⟩

/-- Pruning by jobs leaves the shares of the listed jobs as they are. -/
theorem shareLive_sharePrune_iff
    {jobListed : Nat → Bool} (listedJob : jobListed jobid = true) :
    ShareLive (sharePrune jobListed shares) jobid extranonce2 ntime nonce
        nonce1 ↔
      ShareLive shares jobid extranonce2 ntime nonce nonce1 := by
  have keyJob {share : YaampShare}
      (key :
        share.hasKey jobid extranonce2 ntime nonce nonce1 = true) :
      share.jobid = jobid := by
    simp only [YaampShare.hasKey, Bool.and_eq_true, beq_iff_eq] at key
    exact key.1.1.1.1
  rw [ShareLive, ShareLive, sharePrune]
  constructor
  · rintro ⟨share, pruned, alive, key⟩
    obtain ⟨old, listed, same⟩ := List.mem_map.mp pruned
    split at same
    · rw [← same] at alive key
      exact ⟨old, listed, alive, key⟩
    · rw [← same] at alive
      exact absurd alive (by simp [YaampShare.delete, YaampObject.delete])
  · rintro ⟨share, listed, alive, key⟩
    refine ⟨share, List.mem_map.mpr ⟨share, listed, ?_⟩, alive, key⟩
    rw [if_pos]
    rw [keyJob key, listedJob, Bool.or_true]

/-- Freeing deleted shares leaves the live ones. -/
theorem shareLive_pruneShares_iff :
    ShareLive (pruneShares shares) jobid extranonce2 ntime nonce nonce1 ↔
      ShareLive shares jobid extranonce2 ntime nonce nonce1 := by
  rw [ShareLive, ShareLive, pruneShares]
  constructor
  · rintro ⟨share, kept, alive, key⟩
    obtain ⟨old, listed, -, rfl⟩ := mem_objectPrune.mp kept
    exact ⟨old, listed, by simpa [YaampShare.setHeader] using alive, key⟩
  · rintro ⟨share, listed, alive, key⟩
    refine
      ⟨_, mem_objectPrune.mpr ⟨share, listed, ?_, rfl⟩, ?_, key⟩
    · simp [YaampObject.prunable, alive]
    · simpa [YaampShare.setHeader] using alive

end Live

end YiimpStratum
