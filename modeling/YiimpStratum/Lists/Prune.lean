import YiimpStratum.Library.Run
import YiimpStratum.Lists.Invariant
import YiimpStratum.Object

/-!
# The pass over a list of objects

`object_prune` on the items of a list: the items are freed while the loop
passes them, and the loop is guarded by `count`, which shrinks.  The data of
an item is the address of an object, or 0.
-/

namespace YiimpStratum.Lists

open YiimpStratum
open YiimpStratum.DoublyLinked
open YiimpStratum.Rounds

/-! ## The pass -/

/-- A list of objects, the objects that are allocated, and those freed. -/
structure ObjectList where
  list : CommonList Nat
  objects : Nat → Option YaampObject
  freed : List Nat

namespace ObjectList

/-- `deletefunc`: the object is freed. -/
def deletefunc (state : ObjectList) (object : Nat) : ObjectList :=
  { state with
    objects := Function.update state.objects object none
    freed := state.freed ++ [object] }

/-- `todel->data = NULL` and `Delete` of the item. -/
def deleteItem (list : CommonList Nat) (todel : Nat) :
    Option (CommonList Nat) := do
  let item ← list.items todel
  let cleared : CommonListItem Nat := { item with data := 0 }
  let items := Function.update list.items todel (some cleared)
  CommonList.delete { list with items := items } todel

/-- The loop of `object_prune`, from an item on. -/
def pruneFrom : Nat → ObjectList → Nat → Option ObjectList
  | 0, _, _ => none
  | rounds + 1, state, li =>
      if li = 0 ∨ state.list.count ≤ 0 then some state
      else do
        let todel ← state.list.items li
        if todel.data = 0 then pruneFrom rounds state todel.next
        else do
          let object ← state.objects todel.data
          if object.prunable then do
            let list ← deleteItem state.list li
            pruneFrom rounds
              { state.deletefunc todel.data with list := list } todel.next
          else
            let objects :=
              Function.update state.objects todel.data (some object.release)
            pruneFrom rounds { state with objects := objects } todel.next

/-- `object_prune` -/
def objectPrune (state : ObjectList) (rounds : Nat) : Option ObjectList :=
  state.pruneFrom rounds state.list.first

end ObjectList

/-! ## Items -/

/-- A store into the field `data` of an item keeps the list. -/
theorem Represents.setData {list : CommonList Nat}
    {before behind : List (Nat × Nat)} {node : Nat × Nat}
    (holds : Represents list (before ++ node :: behind)) (data : Nat) :
    Represents
      { list with
        items :=
          Function.update list.items node.1
            (some ⟨data, lastAddress 0 before, headAddress behind 0⟩) }
      (before ++ (node.1, data) :: behind) := by
  have nodup := holds.nodup
  rw [addresses_append, addresses_cons, List.nodup_append] at nodup
  obtain ⟨-, nodupRest, apart⟩ := nodup
  have notBehind := (List.nodup_cons.mp nodupRest).1
  obtain ⟨linkedBefore, nonzero, -, linkedBehind⟩ :=
    linked_append.mp holds.linked
  refine
    ⟨linked_append.mpr ⟨?_, nonzero, Function.update_self _ _ _, ?_⟩,
      ?_, ?_, ?_⟩
  · refine linkedBefore.congr fun address member => ?_
    exact
      Function.update_of_ne (apart _ member _ List.mem_cons_self) _ _
  · refine linkedBehind.congr fun address member => ?_
    exact Function.update_of_ne (by rintro rfl; exact notBehind member) _ _
  · rw [headAddress_append]
    exact holds.first.trans (headAddress_append _ _ _)
  · rw [lastAddress_append]
    exact holds.last.trans (lastAddress_append _ _ _)
  · rw [List.length_append]
    exact holds.count.trans (congrArg _ List.length_append)

theorem Represents.deleteItem {list : CommonList Nat}
    {before behind : List (Nat × Nat)} {node : Nat × Nat}
    (holds : Represents list (before ++ node :: behind)) :
    ∃ list', ObjectList.deleteItem list node.1 = some list' ∧
      Represents list' (before ++ behind) ∧
        AgreeBut (before ++ node :: behind) list.items list'.items := by
  obtain ⟨list', deleted, holds', agree⟩ := (holds.setData 0).delete
  refine ⟨list', ?_, holds', ?_⟩
  · rw [ObjectList.deleteItem, holds.cell]
    exact deleted
  · intro address outside
    have member : node.1 ∈ addresses (before ++ node :: behind) := by
      rw [addresses_append]
      exact List.mem_append_right _ List.mem_cons_self
    have different : address ≠ node.1 := by
      rintro rfl
      exact outside member
    have outside' :
        address ∉ addresses (before ++ (node.1, 0) :: behind) := by
      rw [addresses_append] at outside ⊢
      exact outside
    rw [agree address outside']
    exact Function.update_of_ne different _ _

/-! ## What a pass does -/

namespace ObjectList

variable (objects : Nat → Option YaampObject)

/-- The data of an item is an object that the pass frees. -/
def dead (data : Nat) : Bool :=
  data ≠ 0 && (objects data).any YaampObject.prunable

/-- What a pass over these data leaves of every object. -/
def pruned (data : List Nat) (address : Nat) : Option YaampObject :=
  if address ≠ 0 ∧ address ∈ data then
    (objects address).bind (pruneStep id fun header _ => header)
  else
    objects address

variable {objects}

theorem pruned_cons_zero (data : List Nat) :
    pruned objects (0 :: data) = pruned objects data := by
  funext address
  by_cases isZero : address = 0
  · rw [pruned, pruned, if_neg fun both => both.1 isZero,
      if_neg fun both => both.1 isZero]
  · simp only [pruned, List.mem_cons, isZero, false_or]

theorem pruned_cons {first : Nat} {data : List Nat} (nonzero : first ≠ 0)
    (once : first ∉ data) :
    pruned
        (Function.update objects first
          ((objects first).bind (pruneStep id fun header _ => header)))
        data =
      pruned objects (first :: data) := by
  funext address
  by_cases same : address = first
  · subst same
    rw [pruned, pruned, if_neg fun both => once both.2,
      if_pos ⟨nonzero, List.mem_cons_self⟩, Function.update_self]
  · simp only [pruned, List.mem_cons, same, false_or,
      Function.update_of_ne same]

/-- Another object does not matter to those behind it. -/
theorem dead_update {first : Nat} {data : List Nat} (once : first ∉ data)
    (object : Option YaampObject) {address : Nat} (member : address ∈ data) :
    dead (Function.update objects first object) address =
      dead objects address := by
  have different : address ≠ first := by
    rintro rfl
    exact once member
  rw [dead, dead, Function.update_of_ne different]

/-- The objects of a list are allocated, and each is in it once. -/
structure Listed (state : ObjectList) (nodes : List (Nat × Nat)) : Prop where
  list : Represents state.list nodes
  once : ((nodes.map Prod.snd).filter (· ≠ 0)).Nodup
  allocated :
    ∀ node ∈ nodes, node.2 ≠ 0 → (state.objects node.2).isSome = true

/-- The rest of a pass: `nodes` are ahead of it, and `kept` behind. -/
structure Passed (state state' : ObjectList) (kept nodes : List (Nat × Nat)) :
    Prop where
  list :
    Represents state'.list
      (kept ++ nodes.filter fun node => !dead state.objects node.2)
  freed :
    state'.freed =
      state.freed ++ (nodes.map Prod.snd).filter (dead state.objects)
  objects : state'.objects = pruned state.objects (nodes.map Prod.snd)
  items : AgreeBut (kept ++ nodes) state.list.items state'.list.items

/-- The step of the pass over an item without an object. -/
theorem Passed.null {state state' : ObjectList} {kept rest : List (Nat × Nat)}
    {node : Nat × Nat} (passed : Passed state state' (kept ++ [node]) rest)
    (null : node.2 = 0) : Passed state state' kept (node :: rest) where
  list := by
    have alive : dead state.objects node.2 = false := by
      rw [dead, null]
      rfl
    rw [List.filter_cons_of_pos (by rw [alive]; rfl), List.append_cons]
    exact passed.list
  freed := by
    have alive : ¬ dead state.objects node.2 = true := by
      rw [dead, null]
      exact Bool.false_ne_true
    rw [List.map_cons, List.filter_cons_of_neg alive]
    exact passed.freed
  objects := by
    rw [List.map_cons, null, pruned_cons_zero]
    exact passed.objects
  items := by
    rw [List.append_cons]
    exact passed.items

/-- The filter over the items behind an object does not see it change. -/
theorem filter_dead_update {state : ObjectList} {rest : List (Nat × Nat)}
    {first : Nat} (once : first ∉ rest.map Prod.snd)
    (object : Option YaampObject) :
    (rest.filter fun node =>
        !dead (Function.update state.objects first object) node.2) =
      rest.filter fun node => !dead state.objects node.2 :=
  List.filter_congr fun node member => by
    rw [dead_update once object (List.mem_map_of_mem member)]

/-- The step over an object that is kept. -/
theorem Passed.alive {state state' : ObjectList}
    {kept rest : List (Nat × Nat)} {node : Nat × Nat} {object : YaampObject}
    (found : state.objects node.2 = some object)
    (alive : object.prunable = false) (nonzero : node.2 ≠ 0)
    (once : node.2 ∉ rest.map Prod.snd)
    (passed :
      Passed
        { state with
          objects :=
            Function.update state.objects node.2 (some object.release) }
        state' (kept ++ [node]) rest) :
    Passed state state' kept (node :: rest) := by
  have stays : ObjectList.dead state.objects node.2 = false := by
    rw [ObjectList.dead, found, Option.any_some, alive, Bool.and_false]
  have after :
      (state.objects node.2).bind (pruneStep id fun header _ => header) =
        some object.release := by
    rw [found, Option.bind_some, pruneStep, id, alive]
    rfl
  refine ⟨?_, ?_, ?_, ?_⟩
  · have list := passed.list
    rw [filter_dead_update once] at list
    rw [List.filter_cons_of_pos (by rw [stays]; rfl), List.append_cons]
    exact list
  · rw [List.map_cons,
      List.filter_cons_of_neg (by rw [stays]; exact Bool.false_ne_true),
      passed.freed]
    exact
      congrArg (state.freed ++ ·)
        (List.filter_congr fun data => dead_update once _)
  · rw [List.map_cons, ← pruned_cons nonzero once, after]
    exact passed.objects
  · rw [List.append_cons]
    exact passed.items

/-- The step over an object that is freed. -/
theorem Passed.dead {state state' : ObjectList}
    {kept rest : List (Nat × Nat)} {node : Nat × Nat} {object : YaampObject}
    {list : CommonList Nat}
    (found : state.objects node.2 = some object)
    (prunable : object.prunable = true) (nonzero : node.2 ≠ 0)
    (once : node.2 ∉ rest.map Prod.snd)
    (agree : AgreeBut (kept ++ node :: rest) state.list.items list.items)
    (passed :
      Passed { state.deletefunc node.2 with list := list } state' kept rest) :
    Passed state state' kept (node :: rest) := by
  have goes : ObjectList.dead state.objects node.2 = true := by
    rw [ObjectList.dead, found, Option.any_some, prunable, Bool.and_true]
    exact decide_eq_true nonzero
  have after :
      (state.objects node.2).bind (pruneStep id fun header _ => header) =
        none := by
    rw [found, Option.bind_some, pruneStep, id, prunable]
    rfl
  refine ⟨?_, ?_, ?_, ?_⟩
  · have left := passed.list
    rw [deletefunc, filter_dead_update once] at left
    rw [List.filter_cons_of_neg (by rw [goes]; exact Bool.false_ne_true)]
    exact left
  · rw [List.map_cons, List.filter_cons_of_pos goes, List.append_cons,
      passed.freed]
    exact
      congrArg (state.freed ++ [node.2] ++ ·)
        (List.filter_congr fun data => dead_update once _)
  · rw [List.map_cons, ← pruned_cons nonzero once, after]
    exact passed.objects
  · intro address outside
    rw [← agree address outside]
    refine passed.items address ?_
    rw [addresses_append, List.mem_append, not_or] at outside ⊢
    exact ⟨outside.1, fun late => outside.2 (List.mem_cons_of_mem _ late)⟩

theorem pruneFrom_passed {state : ObjectList} {kept nodes : List (Nat × Nat)}
    (holds : Represents state.list (kept ++ nodes))
    (once : ((nodes.map Prod.snd).filter (· ≠ 0)).Nodup)
    (allocated :
      ∀ node ∈ nodes, node.2 ≠ 0 → (state.objects node.2).isSome = true) :
    ∃ state', Passed state state' kept nodes ∧
      ∀ rounds, nodes.length < rounds →
        state.pruneFrom rounds (headAddress nodes 0) = some state' := by
  induction nodes generalizing state kept with
  | nil =>
      refine ⟨state, ⟨holds, ?_, ?_, fun _ _ => rfl⟩, fun rounds enough => ?_⟩
      · exact (List.append_nil _).symm
      · funext address
        exact (if_neg fun both => nomatch both.2).symm
      · obtain ⟨rounds, rfl⟩ := Nat.exists_eq_succ_of_ne_zero enough.ne'
        exact if_pos (.inl rfl)
  | cons node rest ih =>
      have inside : ¬ (node.1 = 0 ∨ state.list.count ≤ 0) := by
        rw [holds.count, List.length_append, List.length_cons, not_or]
        exact ⟨holds.ne_zero, by omega⟩
      have cell := holds.cell
      have behind :
          ∀ other ∈ rest, other.2 ≠ 0 →
            (state.objects other.2).isSome = true :=
        fun other member => allocated other (List.mem_cons_of_mem _ member)
      have further : kept ++ node :: rest = kept ++ [node] ++ rest :=
        List.append_cons kept node rest
      by_cases null : node.2 = 0
      · rw [List.map_cons, List.filter_cons_of_neg (by simp [null])] at once
        rw [further] at holds
        obtain ⟨state', passed, result⟩ := ih holds once behind
        refine ⟨state', passed.null null, fun rounds enough => ?_⟩
        obtain ⟨rounds, rfl⟩ :=
          Nat.exists_eq_succ_of_ne_zero (Nat.ne_zero_of_lt enough)
        rw [pruneFrom, headAddress_cons, if_neg inside, cell]
        dsimp only [Option.bind_eq_bind, Option.bind_some]
        rw [if_pos null]
        exact result rounds (Nat.lt_of_succ_lt_succ enough)
      · rw [List.map_cons, List.filter_cons_of_pos (by simp [null]),
          List.nodup_cons] at once
        have notBehind : node.2 ∉ rest.map Prod.snd := fun member =>
          once.1 (List.mem_filter.mpr ⟨member, decide_eq_true null⟩)
        obtain ⟨object, found⟩ :=
          Option.isSome_iff_exists.mp
            (allocated node List.mem_cons_self null)
        -- the objects behind are allocated whatever happens to this one
        have stays :
            ∀ changed, ∀ other ∈ rest, other.2 ≠ 0 →
              (Function.update state.objects node.2 changed
                other.2).isSome = true :=
          fun changed other member nonzero => by
            have different : other.2 ≠ node.2 := by
              intro same
              exact notBehind (same ▸ List.mem_map_of_mem member)
            rw [Function.update_of_ne different]
            exact behind other member nonzero
        by_cases prunable : object.prunable = true
        · obtain ⟨list', deleted, holds', agree⟩ := holds.deleteItem
          obtain ⟨state', passed, result⟩ :=
            @ih { state.deletefunc node.2 with list := list' } kept holds'
              once.2 (stays none)
          refine
            ⟨state', passed.dead found prunable null notBehind agree,
              fun rounds enough => ?_⟩
          obtain ⟨rounds, rfl⟩ :=
            Nat.exists_eq_succ_of_ne_zero (Nat.ne_zero_of_lt enough)
          rw [pruneFrom, headAddress_cons, if_neg inside, cell]
          dsimp only [Option.bind_eq_bind, Option.bind_some]
          rw [if_neg null, found]
          dsimp only [Option.bind_some]
          rw [if_pos prunable, deleted]
          exact result rounds (Nat.lt_of_succ_lt_succ enough)
        · rw [further] at holds
          obtain ⟨state', passed, result⟩ :=
            @ih
              { state with
                objects :=
                  Function.update state.objects node.2 (some object.release) }
              (kept ++ [node]) holds once.2 (stays _)
          refine
            ⟨state',
              passed.alive found (eq_false_of_ne_true prunable) null notBehind,
              fun rounds enough => ?_⟩
          obtain ⟨rounds, rfl⟩ :=
            Nat.exists_eq_succ_of_ne_zero (Nat.ne_zero_of_lt enough)
          rw [pruneFrom, headAddress_cons, if_neg inside, cell]
          dsimp only [Option.bind_eq_bind, Option.bind_some]
          rw [if_neg null, found]
          dsimp only [Option.bind_some]
          rw [if_neg prunable]
          exact result rounds (Nat.lt_of_succ_lt_succ enough)

theorem Listed.passed {state : ObjectList} {nodes : List (Nat × Nat)}
    (listed : Listed state nodes) :
    ∃ state', Passed state state' [] nodes ∧
      Returns (objectPrune state) state' := by
  obtain ⟨state', passed, result⟩ :=
    @pruneFrom_passed state [] nodes listed.list listed.once listed.allocated
  refine ⟨state', passed, @Returns.of_lt _ _ _ nodes.length ?_⟩
  intro rounds enough
  rw [objectPrune, listed.list.first]
  exact result rounds enough

/-- The objects of a list, in its order. -/
def headers (state : ObjectList) (nodes : List (Nat × Nat)) :
    List YaampObject :=
  ((nodes.map Prod.snd).filter (· ≠ 0)).filterMap state.objects

/--
The pass over the items refines the pass over the list of the objects, which
stands for it where the items do not matter.
-/
theorem Listed.headers_objectPrune {state : ObjectList}
    {nodes : List (Nat × Nat)} (listed : Listed state nodes) :
    ∃ state', Returns (objectPrune state) state' ∧
      state'.headers (nodes.filter fun node => !dead state.objects node.2) =
        YiimpStratum.objectPrune id (fun header _ => header)
          (state.headers nodes) := by
  obtain ⟨state', passed, returns⟩ := listed.passed
  refine ⟨state', returns, ?_⟩
  have left :
      (nodes.filter fun node => !dead state.objects node.2).map Prod.snd =
        (nodes.map Prod.snd).filter fun data => !dead state.objects data :=
    (@List.filter_map _ _ Prod.snd (fun data => !dead state.objects data)
      nodes).symm
  rw [headers, headers, YiimpStratum.objectPrune, left, List.filter_filter,
    List.filterMap_filter, List.filterMap_filterMap, List.filterMap_filter]
  refine List.filterMap_congr fun data member => ?_
  by_cases isZero : data = 0
  · subst isZero
    rfl
  · have isPruned :
        state'.objects data =
          (state.objects data).bind (pruneStep id fun header _ => header) := by
      rw [passed.objects]
      exact if_pos ⟨isZero, member⟩
    rw [decide_eq_true isZero, Bool.true_and, if_pos rfl, isPruned, dead,
      decide_eq_true isZero, Bool.true_and]
    cases state.objects data with
    | none => rfl
    | some object =>
        rw [Option.any_some, Option.bind_some, pruneStep, id]
        cases object.prunable <;> rfl

/--
Exactly the objects that are deleted and not locked are freed, each once, and
their items are taken out of the list; the others stay in their order, and only
the locks that are to be released are.
-/
theorem objectPrune_exact {state : ObjectList} {nodes : List (Nat × Nat)}
    (listed : Listed state nodes) :
    ∃ state', Returns (objectPrune state) state' ∧
      Represents state'.list
        (nodes.filter fun node => !dead state.objects node.2) ∧
      state'.freed =
        state.freed ++ (nodes.map Prod.snd).filter (dead state.objects) ∧
      ((nodes.map Prod.snd).filter (dead state.objects)).Nodup ∧
      (∀ address ∈ nodes.map Prod.snd, address ≠ 0 →
        ∀ object, state.objects address = some object →
          state'.objects address =
            if object.deleted = true ∧ object.lockCount = 0 then none
            else if object.lockCount ≠ 0 ∧ object.unlock = true then
              some { object with lockCount := object.lockCount - 1 }
            else some object) ∧
      (∀ address, address = 0 ∨ address ∉ nodes.map Prod.snd →
        state'.objects address = state.objects address) ∧
      AgreeBut nodes state.list.items state'.list.items := by
  obtain ⟨state', passed, returns⟩ := listed.passed
  refine ⟨state', returns, passed.list, passed.freed, ?_, ?_, ?_, passed.items⟩
  · refine listed.once.sublist (List.monotone_filter_right _ ?_)
    intro data isDead
    rw [dead, Bool.and_eq_true] at isDead
    exact isDead.1
  · intro address member nonzero object found
    rw [passed.objects, pruned, if_pos ⟨nonzero, member⟩, found,
      Option.bind_some, pruneStep, id, YaampObject.prunable,
      YaampObject.release]
    simp only [Bool.and_eq_true, beq_iff_eq]
    split
    · rfl
    · split <;> rfl
  · intro address outside
    rw [passed.objects, pruned, if_neg]
    rintro ⟨nonzero, member⟩
    exact outside.elim nonzero fun absent => absent member

/-- A deleted object, and one whose lock is to be released. -/
def twoObjects : ObjectList where
  list :=
    { count := 2
      first := 1
      last := 2
      items := fun item =>
        if item = 1 then some ⟨7, 0, 2⟩
        else if item = 2 then some ⟨8, 1, 0⟩
        else none }
  objects := fun object =>
    if object = 7 then some ⟨1, 0, false, true⟩
    else if object = 8 then some ⟨2, 1, true, false⟩
    else none
  freed := []

theorem listed_twoObjects : Listed twoObjects [(1, 7), (2, 8)] where
  list :=
    { linked := ⟨by decide, rfl, by decide, rfl, trivial⟩
      first := rfl
      last := rfl
      count := rfl }
  once := by decide
  allocated := by decide

/-- The deleted object is freed, and the other one is no longer locked. -/
theorem objectPrune_twoObjects :
    ∃ state', Returns (objectPrune twoObjects) state' ∧
      Represents state'.list [(2, 8)] ∧ state'.freed = [7] ∧
        state'.objects 7 = none ∧
          state'.objects 8 = some ⟨2, 0, true, false⟩ := by
  obtain ⟨state', returns, list, freed, -, objects, -⟩ :=
    objectPrune_exact listed_twoObjects
  exact
    ⟨state', returns, list, freed,
      objects 7 (by decide) (by decide) _ rfl,
      objects 8 (by decide) (by decide) _ rfl⟩

end ObjectList

end YiimpStratum.Lists
