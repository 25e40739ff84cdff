import YiimpStratum.Block.Notify

/-!
# Notified blocks are confirmed

A report that comes before the record leaves its trace only in the last hash
of the coin, which the next report overwrites.  The steps that lose it are the
overwriting of a hash that a submit handler still has to compare, and its
mirror images: the report that is handled late, and the acceptance that
returns late.
-/

namespace YiimpStratum.Block

open YiimpStratum.Util

/-! ## The property and the condition -/

namespace State

variable (state : State)

/-- A report of the block of a submit handler has been handled. -/
def Notified (submit : Submit) : Prop :=
  ∃ notify ∈ state.notifies,
    notify.coinid = submit.coinid ∧ notify.hash = submit.hashBe ∧
      notify.finished = true

instance (submit : Submit) : Decidable (state.Notified submit) :=
  inferInstanceAs (Decidable (∃ _ ∈ _, _))

/-- The last hash of the coin is the one of the submit handler. -/
def Remembered (submit : Submit) : Prop :=
  (state.coins submit.coinid).lastnotifyhash = submit.hashBe

instance (submit : Submit) : Decidable (state.Remembered submit) :=
  inferInstanceAs (Decidable (_ = _))

/-- The record is marked confirmed, or `block_prune` has removed it. -/
def Settled (record : Nat) : Prop :=
  ∃ block ∈ state.blocks[record]?,
    block.confirmed = true ∨ block.deleted = true

instance (record : Nat) : Decidable (state.Settled record) :=
  inferInstanceAs (Decidable (∃ _ ∈ _, _))

/-- The submit handler has not compared yet, and its record needs that. -/
def Waiting (submit : Submit) : Prop :=
  match submit.position with
  | .accepted => True
  | .added record => ¬ state.Settled record
  | _ => False

instance (submit : Submit) : Decidable (state.Waiting submit) := by
  rw [State.Waiting]
  split <;> infer_instance

/-- The handlers are through, and the record of the block is confirmed. -/
def NotifiedConfirmed : Prop :=
  ∀ submit ∈ state.submits,
    (state.coins submit.coinid).multialgos = false →
      ∀ record, submit.position = .finished record →
        state.Notified submit → state.Settled record

end State

/-- The daemon's answer names no other hash than the one reported. -/
def SameProof (coind : YaampCoind) (hash : CString)
    (answer : Option GetBlock) : Prop :=
  coind.deleted = false → coind.symbol = "ORB".toList →
    ∀ block ∈ answer, ∀ proofhash ∈ block.proofhash, proofhash = hash

instance (coind : YaampCoind) (hash : CString) (answer : Option GetBlock) :
    Decidable (SameProof coind hash answer) :=
  inferInstanceAs (Decidable (_ → _ → ∀ _ ∈ _, ∀ _ ∈ _, _))

/-- The condition on a step. -/
def Careful (state : State) : Event → Prop
  | .accept coinid hash1 hashBe =>
      let submit : Submit := ⟨coinid, hash1, hashBe, .accepted⟩
      state.Notified submit → state.Remembered submit
  | .add i =>
      ∀ submit ∈ state.submits[i]?, submit.position = .accepted →
        ∀ block ∈ state.blocks,
          block.isOf submit.coinid submit.hashBe = false
  | .confirm i answer =>
      ∀ submit ∈ state.submits[i]?,
        SameProof (state.coins submit.coinid) submit.hashBe answer
  | .notify coinid hash =>
      ∀ submit ∈ state.submits, submit.coinid = coinid →
        state.Waiting submit → state.Notified submit →
          hash = submit.hashBe
  | .notifyConfirm j answer =>
      ∀ notify ∈ state.notifies[j]?, ∀ submit ∈ state.submits,
        submit.coinid = notify.coinid → notify.hash = submit.hashBe →
          SameProof (state.coins submit.coinid) submit.hashBe answer ∧
            (submit.position = .accepted → state.Remembered submit)
  | _ => True

instance (state : State) (event : Event) :
    Decidable (Careful state event) := by
  cases event with
  | accept coinid hash1 hashBe => exact inferInstanceAs (Decidable (_ → _))
  | add i => exact inferInstanceAs (Decidable (∀ _ ∈ _, _))
  | confirm i answer => exact inferInstanceAs (Decidable (∀ _ ∈ _, _))
  | notify coinid hash => exact inferInstanceAs (Decidable (∀ _ ∈ _, _))
  | notifyConfirm j answer =>
      exact inferInstanceAs (Decidable (∀ _ ∈ _, ∀ _ ∈ _, _))
  | _ => exact isTrue trivial

/-! ## The list of blocks -/

/-- Records stay, and what is confirmed or deleted stays so. -/
def Grown (before after : List YaampBlock) : Prop :=
  ∀ (k : Nat) (old : YaampBlock), before[k]? = some old →
    ∃ new, after[k]? = some new ∧ new.coinid = old.coinid ∧
      new.hash1 = old.hash1 ∧ new.hash2 = old.hash2 ∧
        (old.confirmed = true → new.confirmed = true) ∧
          (old.deleted = true → new.deleted = true)

theorem grown_refl (blocks : List YaampBlock) : Grown blocks blocks :=
  fun _ old at_k => ⟨old, at_k, rfl, rfl, rfl, id, id⟩

theorem grown_append (blocks added : List YaampBlock) :
    Grown blocks (blocks ++ added) := by
  intro k old at_k
  have bound := (List.getElem?_eq_some_iff.mp at_k).1
  refine ⟨old, ?_, rfl, rfl, rfl, id, id⟩
  rw [List.getElem?_append_left bound]
  exact at_k

theorem grown_blockPrune (expired : Nat → Bool) (blocks : List YaampBlock) :
    Grown blocks (blockPrune expired blocks) := by
  intro k old at_k
  rw [blockPrune, List.getElem?_mapIdx, at_k]
  refine ⟨_, rfl, ?_⟩
  dsimp only
  split
  · exact ⟨rfl, rfl, rfl, id, fun _ => rfl⟩
  · exact ⟨rfl, rfl, rfl, id, id⟩

theorem grown_confirmFirst (coinid : Nat) (hash blockhash : CString)
    (blocks : List YaampBlock) :
    Grown blocks (confirmFirst coinid hash blockhash blocks) := by
  induction blocks with
  | nil =>
      exact grown_refl []
  | cons block blocks ih =>
      intro k old at_k
      rw [confirmFirst]
      split
      · cases k with
        | zero =>
            cases at_k
            refine ⟨_, rfl, ?_⟩
            rw [YaampBlock.confirm]
            split
            · exact ⟨rfl, rfl, rfl, id, id⟩
            · exact ⟨rfl, rfl, rfl, fun _ => rfl, id⟩
        | succ k => exact ⟨old, at_k, rfl, rfl, rfl, id, id⟩
      · cases k with
        | zero => exact ⟨old, at_k, rfl, rfl, rfl, id, id⟩
        | succ k => exact ih k old at_k

theorem grown_blockConfirm (coind : YaampCoind) (coinid : Nat)
    (blockhash : CString) (answer : Option GetBlock)
    (blocks : List YaampBlock) :
    Grown blocks (blockConfirm coind coinid blockhash answer blocks) := by
  rw [blockConfirm]
  split
  · exact grown_refl blocks
  · exact grown_confirmFirst coinid _ blockhash blocks

/-- The record is the first in the list that `block_confirm` would take. -/
def Recorded (blocks : List YaampBlock) (submit : Submit) (record : Nat) :
    Prop :=
  (∃ block, blocks[record]? = some block ∧ block.coinid = submit.coinid ∧
    block.hash2 = submit.hashBe) ∧
      ∀ k, k < record → ∀ block, blocks[k]? = some block →
        block.isOf submit.coinid submit.hashBe = false

theorem isOf_grown {coinid : Nat} {hash : CString} {old new : YaampBlock}
    (coin : new.coinid = old.coinid) (first : new.hash1 = old.hash1)
    (second : new.hash2 = old.hash2)
    (deleted : old.deleted = true → new.deleted = true)
    (other : old.isOf coinid hash = false) :
    new.isOf coinid hash = false := by
  rw [YaampBlock.isOf] at other ⊢
  rw [coin, first, second]
  cases gone : old.deleted with
  | false =>
      rw [gone, Bool.not_false, Bool.and_true] at other
      rw [Bool.and_right_comm, other, Bool.false_and]
  | true => simp [deleted gone]

theorem Recorded.grown {before after : List YaampBlock} {submit : Submit}
    {record : Nat} (grown : Grown before after)
    (recorded : Recorded before submit record) :
    Recorded after submit record := by
  obtain ⟨⟨block, at_record, coin, hash2⟩, first⟩ := recorded
  have bound := (List.getElem?_eq_some_iff.mp at_record).1
  obtain ⟨new, at_new, newCoin, -, newHash2, -⟩ := grown record block at_record
  refine ⟨⟨new, at_new, newCoin.trans coin, newHash2.trans hash2⟩, ?_⟩
  intro k before_record later at_k
  obtain ⟨earlier, at_earlier⟩ : ∃ earlier, before[k]? = some earlier :=
    ⟨_, List.getElem?_eq_getElem (before_record.trans bound)⟩
  obtain ⟨same, at_same, sameCoin, hash1, sameHash2, -, deleted⟩ :=
    grown k earlier at_earlier
  obtain rfl : later = same := Option.some.inj (at_k.symm.trans at_same)
  exact isOf_grown sameCoin hash1 sameHash2 deleted
    (first k before_record earlier at_earlier)

/-- `block_confirm` marks the first record with the hash. -/
theorem confirmFirst_settles {coinid : Nat} {hash blockhash : CString}
    {blocks : List YaampBlock} {record : Nat} {block : YaampBlock}
    (at_record : blocks[record]? = some block)
    (isOf : block.isOf coinid hash = true)
    (first :
      ∀ k, k < record → ∀ earlier, blocks[k]? = some earlier →
        earlier.isOf coinid hash = false) :
    ∃ new, (confirmFirst coinid hash blockhash blocks)[record]? = some new ∧
      new.confirmed = true := by
  induction blocks generalizing record with
  | nil => exact absurd at_record (by simp)
  | cons head blocks ih =>
      rw [confirmFirst]
      cases record with
      | zero =>
          cases at_record
          rw [if_pos isOf]
          refine ⟨_, rfl, ?_⟩
          rw [YaampBlock.confirm]
          split
          · rename_i confirmed
            exact confirmed
          · rfl
      | succ record =>
          rw [first 0 (Nat.succ_pos record) head rfl]
          exact
            ih at_record fun k bound =>
              first (k + 1) (Nat.succ_lt_succ bound)

theorem wantedHash_eq {coind : YaampCoind} {hash : BlockHash}
    {answer : Option GetBlock} (multialgos : coind.multialgos = false)
    (same : SameProof coind hash answer) :
    wantedHash coind hash answer = hash := by
  have short : (hash : CString).take 160 = hash := by
    apply List.take_of_length_le
    rw [hash.property]
    decide
  rw [wantedHash, multialgos]
  cases gone : coind.deleted with
  | true => exact short
  | false =>
      by_cases orb : coind.symbol = "ORB".toList
      · rw [if_neg Bool.false_ne_true, if_neg Bool.false_ne_true, if_pos orb]
        cases answer with
        | none => exact short
        | some block =>
            rw [Option.bind_some]
            cases proof : block.proofhash with
            | none => exact short
            | some proofhash =>
                rw [same gone orb block rfl proofhash proof]
                exact short
      · rw [if_neg Bool.false_ne_true, if_neg Bool.false_ne_true, if_neg orb]
        exact short

/-- A record that `block_confirm` looks for is confirmed or deleted. -/
theorem Recorded.settles {blocks : List YaampBlock} {submit : Submit}
    {record : Nat} (recorded : Recorded blocks submit record)
    {coind : YaampCoind} {answer : Option GetBlock}
    (multialgos : coind.multialgos = false)
    (same : SameProof coind submit.hashBe answer) :
    ∃ new,
      (blockConfirm coind submit.coinid submit.hashBe answer
          blocks)[record]? = some new ∧
        (new.confirmed = true ∨ new.deleted = true) := by
  obtain ⟨⟨block, at_record, coin, hash2⟩, first⟩ := recorded
  rw [blockConfirm, if_neg (by rw [submit.hashBe.property]; decide),
    wantedHash_eq multialgos same]
  cases gone : block.deleted with
  | true =>
      obtain ⟨new, at_new, -, -, -, -, deleted⟩ :=
        grown_confirmFirst submit.coinid submit.hashBe submit.hashBe blocks
          record block at_record
      exact ⟨new, at_new, Or.inr (deleted gone)⟩
  | false =>
      have isOf : block.isOf submit.coinid submit.hashBe = true := by
        rw [YaampBlock.isOf, coin, gone, hash2]
        simp
      obtain ⟨new, at_new, confirmed⟩ :=
        @confirmFirst_settles _ _ submit.hashBe _ _ _ at_record isOf first
      exact ⟨new, at_new, Or.inl confirmed⟩

/-! ## The invariant -/

/-- What careful steps keep about a submit handler. -/
def SubmitInvariant (state : State) (submit : Submit) : Prop :=
  match submit.position with
  | .accepted => state.Notified submit → state.Remembered submit
  | .added record =>
      Recorded state.blocks submit record ∧
        (state.Notified submit →
          state.Settled record ∨ state.Remembered submit)
  | .equal record => Recorded state.blocks submit record
  | .finished record =>
      Recorded state.blocks submit record ∧
        (state.Notified submit → state.Settled record)

/-- What careful steps keep. -/
def HandshakeInvariant (state : State) : Prop :=
  ∀ submit ∈ state.submits,
    (state.coins submit.coinid).multialgos = false →
      SubmitInvariant state submit

theorem Recorded.settled_of_grown {before after : State} {submit : Submit}
    {record : Nat} (_ : Recorded before.blocks submit record)
    (grown : Grown before.blocks after.blocks)
    (settled : before.Settled record) : after.Settled record := by
  obtain ⟨block, at_record, done⟩ := settled
  obtain ⟨new, at_new, -, -, -, confirmed, deleted⟩ :=
    grown record block at_record
  exact ⟨new, at_new, done.imp confirmed deleted⟩

/-- A step that only adds to the list of blocks. -/
theorem SubmitInvariant.grown {before after : State} {submit : Submit}
    (invariant : SubmitInvariant before submit)
    (grown : Grown before.blocks after.blocks)
    (notified : after.Notified submit → before.Notified submit)
    (remembered : before.Remembered submit → after.Remembered submit) :
    SubmitInvariant after submit := by
  rw [SubmitInvariant] at invariant ⊢
  cases position : submit.position with
  | accepted =>
      rw [position] at invariant
      exact fun told => remembered (invariant (notified told))
  | added record =>
      rw [position] at invariant
      exact
        ⟨invariant.1.grown grown, fun told =>
          (invariant.2 (notified told)).imp
            (invariant.1.settled_of_grown grown) remembered⟩
  | equal record =>
      rw [position] at invariant
      exact Recorded.grown grown invariant
  | finished record =>
      rw [position] at invariant
      exact
        ⟨invariant.1.grown grown, fun told =>
          invariant.1.settled_of_grown grown (invariant.2 (notified told))⟩

theorem mem_modify {α : Type} {list : List α} {i : Nat} {change : α → α}
    {value : α} (member : value ∈ list.modify i change) :
    value ∈ list ∨ ∃ old, list[i]? = some old ∧ value = change old := by
  obtain ⟨k, at_k⟩ := List.mem_iff_getElem?.mp member
  rw [List.getElem?_modify] at at_k
  obtain ⟨old, was, changed⟩ := Option.map_eq_some_iff.mp at_k
  split at changed
  · rename_i same
    exact Or.inr ⟨old, same ▸ was, changed.symm⟩
  · exact Or.inl (changed ▸ List.mem_of_getElem? was)

namespace HandshakeInvariant

variable {state : State}

theorem initial (coins : Nat → YaampCoind) :
    HandshakeInvariant (State.initial coins) :=
  fun _ member => absurd member (by simp [State.initial])

/-- A step of one submit handler. -/
theorem moved (invariant : HandshakeInvariant state) {i : Nat}
    {submit : Submit} (at_i : state.submits[i]? = some submit)
    {position : Position} {blocks : List YaampBlock}
    (grown : Grown state.blocks blocks)
    (own :
      (state.coins submit.coinid).multialgos = false →
        SubmitInvariant state submit →
          SubmitInvariant { state with blocks := blocks }
            { submit with position := position }) :
    HandshakeInvariant
      { state.setPosition i position with blocks := blocks } := by
  intro other member single
  rcases mem_modify member with old | ⟨old, at_old, rfl⟩
  · exact
      (invariant other old single).grown grown (fun told => told)
        fun remembered => remembered
  · obtain rfl : submit = old := Option.some.inj (at_i.symm.trans at_old)
    exact own single (invariant submit (List.mem_of_getElem? at_i) single)

theorem accept (invariant : HandshakeInvariant state) {coinid : Nat}
    {hash1 : CString} {hashBe : BlockHash}
    (careful : Careful state (.accept coinid hash1 hashBe)) :
    HandshakeInvariant (state.accept coinid hash1 hashBe) := by
  intro submit member single
  rcases List.mem_append.mp member with old | new
  · exact
      (invariant submit old single).grown (grown_refl _) (fun told => told)
        fun remembered => remembered
  · obtain rfl := List.mem_singleton.mp new
    exact careful

theorem add (invariant : HandshakeInvariant state) {i : Nat}
    (careful : Careful state (.add i)) :
    HandshakeInvariant (state.add i) := by
  rw [State.add]
  split
  · exact invariant
  · rename_i submit at_i
    split
    · rename_i accepted
      apply invariant.moved at_i (grown_append _ _)
      intro _ before
      rw [SubmitInvariant, accepted] at before
      refine ⟨⟨⟨_, List.getElem?_concat_length, rfl, rfl⟩, ?_⟩, ?_⟩
      · intro k bound block at_k
        rw [List.getElem?_append_left bound] at at_k
        exact
          careful submit at_i accepted block (List.mem_of_getElem? at_k)
      · exact fun told => Or.inr (before told)
    · exact invariant

theorem compare (invariant : HandshakeInvariant state) (i : Nat) :
    HandshakeInvariant (state.compare i) := by
  rw [State.compare]
  split
  · exact invariant
  · rename_i submit at_i
    split
    · rename_i record added
      split
      · apply invariant.moved at_i (grown_refl _)
        intro _ before
        rw [SubmitInvariant, added] at before
        exact before.1
      · rename_i different
        apply invariant.moved at_i (grown_refl _)
        intro _ before
        rw [SubmitInvariant, added] at before
        exact
          ⟨before.1, fun told =>
            (before.2 told).resolve_right different⟩
    · exact invariant

theorem confirm (invariant : HandshakeInvariant state) {i : Nat}
    {answer : Option GetBlock} (careful : Careful state (.confirm i answer)) :
    HandshakeInvariant (state.confirm i answer) := by
  rw [State.confirm]
  split
  · exact invariant
  · rename_i submit at_i
    split
    · rename_i record equal
      have grown :=
        grown_blockConfirm (state.coins submit.coinid) submit.coinid
          submit.hashBe answer state.blocks
      apply invariant.moved at_i grown
      intro single before
      rw [SubmitInvariant, equal] at before
      exact
        ⟨Recorded.grown grown before, fun _ =>
          before.settles single (careful submit at_i)⟩
    · exact invariant

theorem notify (invariant : HandshakeInvariant state) {coinid : Nat}
    {hash : CString} (careful : Careful state (.notify coinid hash)) :
    HandshakeInvariant (state.notify coinid hash) := by
  rw [State.notify]
  split
  · exact invariant
  · intro submit member single
    have notified :
        State.Notified
            { state with
              notifies :=
                state.notifies ++
                  [{ coinid := coinid, hash := hash, finished := false }] }
            submit →
          state.Notified submit := by
      rintro ⟨notify, listed, coin, same, finished⟩
      rcases List.mem_append.mp listed with old | new
      · exact ⟨notify, old, coin, same, finished⟩
      · obtain rfl := List.mem_singleton.mp new
        exact absurd finished Bool.false_ne_true
    by_cases other : submit.coinid = coinid
    · have stored :
          hash = submit.hashBe → hash.take 160 = submit.hashBe := by
        rintro rfl
        apply List.take_of_length_le
        rw [submit.hashBe.property]
        decide
      subst other
      have before :=
        invariant submit member (by simpa using single)
      have remembered : state.Waiting submit → state.Notified submit →
          State.Remembered
            { state with
              coins :=
                Function.update state.coins submit.coinid
                  { state.coins submit.coinid with
                    lastnotifyhash := hash.take 160 } } submit := by
        intro waiting told
        have updated :
            (Function.update state.coins submit.coinid
                { state.coins submit.coinid with
                  lastnotifyhash := hash.take 160 }
                submit.coinid).lastnotifyhash =
              hash.take 160 := by
          rw [Function.update_self]
        exact updated.trans (stored (careful submit member rfl waiting told))
      rw [SubmitInvariant] at before ⊢
      cases position : submit.position with
      | accepted =>
          intro told
          apply remembered _ (notified told)
          rw [State.Waiting, position]
          trivial
      | added record =>
          rw [position] at before
          refine ⟨before.1, fun told => ?_⟩
          by_cases settled : state.Settled record
          · exact Or.inl settled
          · apply Or.inr
            apply remembered _ (notified told)
            rw [State.Waiting, position]
            exact settled
      | equal record =>
          rw [position] at before
          exact before
      | finished record =>
          rw [position] at before
          exact ⟨before.1, fun told => before.2 (notified told)⟩
    · have same :
          Function.update state.coins coinid
              { state.coins coinid with lastnotifyhash := hash.take 160 }
              submit.coinid =
            state.coins submit.coinid :=
        Function.update_of_ne other ..
      refine
        (invariant submit member (same ▸ single)).grown (grown_refl _)
          notified ?_
      intro remembered
      exact (congrArg YaampCoind.lastnotifyhash same).trans remembered

theorem notifyConfirm (invariant : HandshakeInvariant state) {j : Nat}
    {answer : Option GetBlock}
    (careful : Careful state (.notifyConfirm j answer)) :
    HandshakeInvariant (state.notifyConfirm j answer) := by
  rw [State.notifyConfirm]
  split
  · exact invariant
  · rename_i notify at_j
    split
    · exact invariant
    · intro submit member single
      have before := invariant submit member single
      have grown :=
        grown_blockConfirm (state.coins notify.coinid) notify.coinid
          notify.hash answer state.blocks
      by_cases own :
          submit.coinid = notify.coinid ∧ notify.hash = submit.hashBe
      · obtain ⟨same, remembered⟩ :=
          careful notify at_j submit member own.1 own.2
        have settles : ∀ record, Recorded state.blocks submit record →
            ∃ new,
              (blockConfirm (state.coins notify.coinid) notify.coinid
                  notify.hash answer state.blocks)[record]? = some new ∧
                (new.confirmed = true ∨ new.deleted = true) := by
          intro record recorded
          rw [← own.1, own.2]
          exact recorded.settles single same
        rw [SubmitInvariant] at before ⊢
        cases position : submit.position with
        | accepted => exact fun _ => remembered position
        | added record =>
            rw [position] at before
            exact
              ⟨before.1.grown grown, fun _ =>
                Or.inl (settles record before.1)⟩
        | equal record =>
            rw [position] at before
            exact Recorded.grown grown before
        | finished record =>
            rw [position] at before
            exact
              ⟨before.1.grown grown, fun _ => settles record before.1⟩
      · apply before.grown grown
        · rintro ⟨told, listed, coin, hash, finished⟩
          rcases mem_modify listed with old | ⟨old, at_old, rfl⟩
          · exact ⟨told, old, coin, hash, finished⟩
          · obtain rfl : notify = old :=
              Option.some.inj (at_j.symm.trans at_old)
            exact absurd ⟨coin.symm, hash⟩ own
        · exact fun remembered => remembered

theorem step (invariant : HandshakeInvariant state) {event : Event}
    (careful : Careful state event) :
    HandshakeInvariant (Block.step state event) := by
  cases event with
  | accept coinid hash1 hashBe => exact invariant.accept careful
  | add i => exact invariant.add careful
  | compare i => exact invariant.compare i
  | confirm i answer => exact invariant.confirm careful
  | addAux coinid hash =>
      intro submit member single
      exact
        (invariant submit member single).grown (grown_append _ _)
          (fun told => told) fun remembered => remembered
  | notify coinid hash => exact invariant.notify careful
  | notifyConfirm j answer => exact invariant.notifyConfirm careful
  | blockPrune expired =>
      intro submit member single
      exact
        (invariant submit member single).grown
          (grown_blockPrune expired state.blocks) (fun told => told)
          fun remembered => remembered

theorem notifiedConfirmed (invariant : HandshakeInvariant state) :
    state.NotifiedConfirmed := by
  intro submit member single record position told
  have kept := invariant submit member single
  rw [SubmitInvariant, position] at kept
  exact kept.2 told

end HandshakeInvariant

/-- In every run of careful steps the notified blocks are confirmed. -/
theorem notifiedConfirmed_of_careful (coins : Nat → YaampCoind)
    {events : List Event}
    (careful : Run.EveryStep step Careful (State.initial coins) events) :
    (Run.after step (State.initial coins) events).NotifiedConfirmed := by
  have kept :
      HandshakeInvariant (Run.after step (State.initial coins) events) :=
    Run.invariant_after_of_everyStep
      (fun _ _ invariant careful => invariant.step careful)
      (HandshakeInvariant.initial coins) careful
  exact kept.notifiedConfirmed

/-- Coins with an ordinary daemon. -/
def ordinary : Nat → YaampCoind := fun _ =>
  { symbol := "BTC".toList
    multialgos := false
    deleted := false
    lastnotifyhash := [] }

/-- The hash of one digit written sixty-four times. -/
def hashOf (digit : Char) : BlockHash :=
  ⟨List.replicate 64 digit, List.length_replicate⟩

/-- The report of a block comes before its record, and is remembered. -/
theorem notifiedConfirmed_of_careful_early :
    (Run.after step (State.initial ordinary)
      [.accept 1 [] (hashOf 'a'), .notify 1 (hashOf 'a'),
        .notifyConfirm 0 none, .add 0, .compare 0, .confirm 0 none,
        .notify 1 (hashOf 'b'), .notifyConfirm 1 none]).NotifiedConfirmed :=
  notifiedConfirmed_of_careful ordinary (by decide)

/-- The report of a block comes before its record, and is overwritten. -/
def overwritten : List Event :=
  [.accept 1 [] (hashOf 'a'), .notify 1 (hashOf 'a'), .notifyConfirm 0 none,
    .notify 1 (hashOf 'b'), .add 0, .compare 0]

theorem not_notifiedConfirmed_overwritten :
    ¬ (Run.after step (State.initial ordinary)
      overwritten).NotifiedConfirmed := by
  intro confirmed
  have through :
      ∃ submit ∈
          (Run.after step (State.initial ordinary) overwritten).submits,
        ((Run.after step (State.initial ordinary) overwritten).coins
            submit.coinid).multialgos = false ∧
          submit.position = .finished 0 ∧
            (Run.after step (State.initial ordinary) overwritten).Notified
              submit := by
    decide
  obtain ⟨submit, member, single, position, told⟩ := through
  have settled := confirmed submit member single 0 position told
  revert settled
  decide

end YiimpStratum.Block
