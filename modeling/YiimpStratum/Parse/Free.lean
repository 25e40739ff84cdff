import YiimpStratum.Parse.Accepted

/-!
# Freeing a parsed value

`json_value_free` walks over the values without a stack: it counts the length
of an array or an object down, enters the last element that is left, and goes
back to the parent when there is none.  What the parser allocated for a text is
freed so, every block once.
-/

namespace YiimpStratum.Parse

open YiimpStratum
open YiimpStratum.Util
open YiimpStratum.Rounds

/-! ## The walk -/

/-- What is allocated: a value, and the memory that its union points to. -/
inductive Block where
  | value (address : Nat)
  | contents (address : Nat)
  deriving DecidableEq

/-- The values, of which a freed one is `none`, and what was freed. -/
structure Heap where
  values : List (Option JsonValue)
  freed : List Block

namespace Heap

/-- `mem_free` of a value, after that of its memory if it has some. -/
def release (heap : Heap) (address : Nat) (hasContents : Bool) : Heap where
  values := heap.values.set address none
  freed :=
    heap.freed ++
      ((if hasContents then [Block.contents address] else []) ++
        [Block.value address])

/-- The data of a value replaced. -/
def store (heap : Heap) (address : Nat) (value : JsonValue)
    (data : JsonData) : Heap :=
  { heap with
    values := heap.values.set address (some { value with data := data }) }

end Heap

/-- A round of the loop at a value; a freed value is not read. -/
def freeRound (heap : Heap) (address : Nat) : Option (Heap × Option Nat) :=
  match heap.values[address]? with
  | some (some value) =>
      match value.data with
      | .array a =>
          match a.length with
          | 0 => some (heap.release address true, value.parent)
          | length + 1 =>
              match a.values[length]? with
              | some (some child) =>
                  some
                    (heap.store address value
                      (.array { a with length := length }), some child)
              | _ => none
      | .object o =>
          match o.length with
          | 0 => some (heap.release address true, value.parent)
          | length + 1 =>
              match o.values[length]? with
              | some member =>
                  match member.value with
                  | some child =>
                      some
                        (heap.store address value
                          (.object { o with length := length }), some child)
                  | none => none
              | none => none
      | .string _ => some (heap.release address true, value.parent)
      | _ => some (heap.release address false, value.parent)
  | _ => none

/-- The loop; it has no result after an access to memory that is freed. -/
def freeFrom : Nat → Heap → Option Nat → Option Heap
  | 0, _, _ => none
  | _ + 1, heap, none => some heap
  | rounds + 1, heap, some address =>
      match freeRound heap address with
      | none => none
      | some (heap, next) => freeFrom rounds heap next

/-- `json_value_free` of the first value, whose parent is cleared. -/
def jsonValueFree (values : List JsonValue) (rounds : Nat) : Option Heap :=
  match values with
  | [] => none
  | root :: values =>
      freeFrom rounds
        { values := ({ root with parent := none } :: values).map some
          freed := [] } (some 0)

/-! ## The order in which a value is freed -/

mutual

/-- What is freed for a value at this address: its elements from the last. -/
def frees (base : Nat) : Json → List Block
  | .array elements =>
      freesElements (base + 1) elements ++ [.contents base, .value base]
  | .object members =>
      freesMembers (base + 1) members ++ [.contents base, .value base]
  | .string _ => [.contents base, .value base]
  | _ => [.value base]

def freesElements (base : Nat) : List Json → List Block
  | [] => []
  | json :: elements =>
      freesElements (base + size json) elements ++ frees base json

def freesMembers (base : Nat) : List (CString × Json) → List Block
  | [] => []
  | member :: members =>
      freesMembers (base + sizeMember member) members ++
        freesMember base member

def freesMember (base : Nat) : CString × Json → List Block
  | (_, json) => frees base json

end

/-- From here the loop leads on to there. -/
def Continues (heap : Heap) (here : Option Nat) (heap' : Heap)
    (next : Option Nat) : Prop :=
  ∀ result, Returns (fun rounds => freeFrom rounds heap' next) result →
    Returns (fun rounds => freeFrom rounds heap here) result

theorem Continues.round {heap heap' : Heap} {address : Nat}
    {next : Option Nat} (round : freeRound heap address = some (heap', next)) :
    Continues heap (some address) heap' next := by
  intro result returns
  exact returns.step fun rounds => by simp only [freeFrom, round]

theorem Continues.trans {heap heap' heap'' : Heap} {here next last : Option Nat}
    (first : Continues heap here heap' next)
    (second : Continues heap' next heap'' last) :
    Continues heap here heap'' last :=
  fun result returns => first result (second result returns)

theorem Continues.refl (heap : Heap) (here : Option Nat) :
    Continues heap here heap here :=
  fun _ returns => returns

/-- Values of which none has been freed. -/
def present (values : List JsonValue) : List (Option JsonValue) :=
  values.map some

/-- Values of which nothing is left. -/
def gone (count : Nat) : List (Option JsonValue) :=
  List.replicate count none

theorem present_append (values later : List JsonValue) :
    present (values ++ later) = present values ++ present later :=
  List.map_append

theorem gone_add (count later : Nat) :
    gone (count + later) = gone count ++ gone later :=
  List.replicate_add count later none

@[simp]
theorem length_present (values : List JsonValue) :
    (present values).length = values.length :=
  List.length_map _

section Rounds

variable (before behind : List (Option JsonValue)) (freed : List Block)
variable (parent : Option Nat)

/-- The last element that is left of an array is entered. -/
theorem freeRound_element (cells : List (Option Nat)) (length child : Nat)
    (cell : cells[length]? = some (some child)) :
    freeRound
        ⟨before ++ some ⟨parent, .array ⟨length + 1, cells⟩⟩ :: behind, freed⟩
        before.length =
      some
        (⟨before ++ some ⟨parent, .array ⟨length, cells⟩⟩ :: behind, freed⟩,
          some child) := by
  simp only [freeRound, getElem?_middle, cell, Heap.store, set_middle]

/-- The last member that is left of an object is entered. -/
theorem freeRound_member (o : JsonObject) (length child : Nat)
    (member : JsonMember) (cell : o.values[length]? = some member)
    (value : member.value = some child) :
    freeRound
        ⟨before ++
          some ⟨parent, .object { o with length := length + 1 }⟩ :: behind,
          freed⟩ before.length =
      some
        (⟨before ++ some ⟨parent, .object { o with length := length }⟩ ::
          behind, freed⟩, some child) := by
  simp only [freeRound, getElem?_middle, cell, value, Heap.store, set_middle]

/-- A value in which none is left is freed, and the loop goes to its parent. -/
theorem continues_release (data : JsonData) (contents : Bool)
    (round : ∀ heap : Heap, ∀ address,
      heap.values[address]? = some (some ⟨parent, data⟩) →
        freeRound heap address =
          some (heap.release address contents, parent)) :
    Continues ⟨before ++ some ⟨parent, data⟩ :: behind, freed⟩
      (some before.length)
      ⟨before ++ none :: behind,
        freed ++
          ((if contents then [Block.contents before.length] else []) ++
            [Block.value before.length])⟩ parent := by
  refine Continues.round ?_
  rw [round _ _ (getElem?_middle before _ behind), Heap.release]
  simp only [set_middle]

end Rounds

mutual

/-- The loop frees a value with all that is in it, and nothing around it. -/
theorem continues_value (json : Json)
    (before behind : List (Option JsonValue)) (freed : List Block)
    (parent : Option Nat) :
    Continues
      ⟨before ++ (present (filled parent before.length json) ++ behind), freed⟩
      (some before.length)
      ⟨before ++ (gone (size json) ++ behind),
        freed ++ frees before.length json⟩ parent := by
  cases json with
  | array elements =>
      have inner :=
        continues_elements elements before [] behind freed parent []
      have last :=
        continues_release before (gone (sizeElements elements) ++ behind)
          (freed ++ freesElements (before.length + 1) elements) parent
          (.array ⟨0, (addresses (before.length + 1) elements).map some⟩) true
          fun heap address found => by simp only [freeRound, found]
      simp only [List.nil_append, List.length_nil, Nat.add_zero,
        Nat.zero_add] at inner
      rw [size, gone_add, frees, ← List.append_assoc freed]
      exact inner.trans last
  | object members =>
      have inner :=
        continues_members members before [] behind freed parent 0 []
          ⟨0, nameBytes members, [], nameBlock members, nameBytes members⟩
      have last :=
        continues_release before (gone (sizeMembers members) ++ behind)
          (freed ++ freesMembers (before.length + 1) members) parent
          (.object
            ⟨0, nameBytes members, entries 0 (before.length + 1) members,
              nameBlock members, nameBytes members⟩) true
          fun heap address found => by simp only [freeRound, found]
      simp only [List.nil_append, List.length_nil, Nat.add_zero,
        Nat.zero_add] at inner
      rw [size, gone_add, frees, ← List.append_assoc freed]
      exact inner.trans last
  | integer value =>
      exact continues_release before behind freed parent (.integer value) false
        fun heap address found => by simp only [freeRound, found]
  | double value =>
      exact continues_release before behind freed parent (.double value) false
        fun heap address found => by simp only [freeRound, found]
  | string text =>
      exact continues_release before behind freed parent
        (.string ⟨text.length, written text⟩) true
        fun heap address found => by simp only [freeRound, found]
  | boolean value =>
      exact continues_release before behind freed parent (.boolean value) false
        fun heap address found => by simp only [freeRound, found]
  | null =>
      exact continues_release before behind freed parent .null false
        fun heap address found => by simp only [freeRound, found]

/-- The elements are freed from the last to the first. -/
theorem continues_elements (elements : List Json)
    (before between behind : List (Option JsonValue)) (freed : List Block)
    (parent : Option Nat) (shown : List (Option Nat)) :
    let base := before.length + 1 + between.length
    let cells := shown ++ (addresses base elements).map some
    Continues
      ⟨before ++
        some ⟨parent, .array ⟨shown.length + elements.length, cells⟩⟩ ::
          (between ++
            (present (layoutElements fill before.length base elements) ++
              behind)), freed⟩
      (some before.length)
      ⟨before ++
        some ⟨parent, .array ⟨shown.length, cells⟩⟩ ::
          (between ++ (gone (sizeElements elements) ++ behind)),
        freed ++ freesElements base elements⟩
      (some before.length) := by
  intro base cells
  cases elements with
  | nil =>
      simp only [freesElements, List.append_nil]
      exact Continues.refl _ _
  | cons json elements =>
      have behindFirst :
          before.length + 1 +
              (between ++
                present (filled (some before.length) base json)).length =
            base + size json := by
        rw [List.length_append, length_present, length_layout, ← Nat.add_assoc]
      have later :=
        continues_elements elements before
          (between ++ present (filled (some before.length) base json)) behind
          freed parent (shown ++ [some base])
      have place :
          (before ++ some ⟨parent, .array ⟨shown.length, cells⟩⟩ ::
            between).length = base := by
        rw [List.length_append, List.length_cons]
        omega
      have first :=
        continues_value json
          (before ++ some ⟨parent, .array ⟨shown.length, cells⟩⟩ :: between)
          (gone (sizeElements elements) ++ behind)
          (freed ++ freesElements (base + size json) elements)
          (some before.length)
      have enter :=
        Continues.round
          (freeRound_element before
            (between ++ (present (filled (some before.length) base json) ++
              (gone (sizeElements elements) ++ behind)))
            (freed ++ freesElements (base + size json) elements) parent cells
            shown.length base (getElem?_middle shown _ _))
      rw [place] at first
      rw [behindFirst] at later
      simp only [List.append_assoc, List.singleton_append, List.length_append,
        List.length_singleton] at later first
      have count :
          shown.length + (json :: elements).length =
            shown.length + 1 + elements.length := by
        rw [List.length_cons]
        omega
      rw [count, layoutElements, length_layout, present_append, sizeElements,
        gone_add, freesElements]
      simp only [List.append_assoc]
      exact later.trans (enter.trans first)

theorem continues_members (members : List (CString × Json))
    (before between behind : List (Option JsonValue)) (freed : List Block)
    (parent : Option Nat) (name : Nat) (shown : List JsonMember)
    (o : JsonObject) :
    let base := before.length + 1 + between.length
    let cells := shown ++ entries name base members
    Continues
      ⟨before ++
        some
          ⟨parent,
            .object
              { o with
                length := shown.length + members.length
                values := cells }⟩ ::
          (between ++
            (present (layoutMembers fill before.length base members) ++
              behind)), freed⟩
      (some before.length)
      ⟨before ++
        some
          ⟨parent,
            .object { o with length := shown.length, values := cells }⟩ ::
          (between ++ (gone (sizeMembers members) ++ behind)),
        freed ++ freesMembers base members⟩
      (some before.length) := by
  intro base cells
  cases members with
  | nil =>
      simp only [freesMembers, List.append_nil]
      exact Continues.refl _ _
  | cons member members =>
      obtain ⟨text, json⟩ := member
      have behindFirst :
          before.length + 1 +
              (between ++
                present (filled (some before.length) base json)).length =
            base + size json := by
        rw [List.length_append, length_present, length_layout, ← Nat.add_assoc]
      let entry : JsonMember := ⟨some name, some text.length, some base⟩
      have later :=
        continues_members members before
          (between ++ present (filled (some before.length) base json)) behind
          freed parent (name + (text.length + 1)) (shown ++ [entry]) o
      have place :
          (before ++
            some
              ⟨parent,
                .object { o with length := shown.length, values := cells }⟩ ::
              between).length = base := by
        rw [List.length_append, List.length_cons]
        omega
      have first :=
        continues_value json
          (before ++
            some
              ⟨parent,
                .object { o with length := shown.length, values := cells }⟩ ::
              between)
          (gone (sizeMembers members) ++ behind)
          (freed ++ freesMembers (base + size json) members)
          (some before.length)
      have enter :=
        Continues.round
          (freeRound_member before
            (between ++ (present (filled (some before.length) base json) ++
              (gone (sizeMembers members) ++ behind)))
            (freed ++ freesMembers (base + size json) members) parent
            { o with values := cells } shown.length base entry
            (getElem?_middle shown _ _) rfl)
      rw [place] at first
      rw [behindFirst] at later
      simp only [List.append_assoc, List.singleton_append, List.length_append,
        List.length_singleton] at later first
      have count :
          shown.length + ((text, json) :: members).length =
            shown.length + 1 + members.length := by
        rw [List.length_cons]
        omega
      rw [count, layoutMembers, layoutMember, length_layout, present_append,
        sizeMembers, sizeMember, gone_add, freesMembers, freesMember,
        sizeMember]
      simp only [List.append_assoc]
      exact later.trans (enter.trans first)

end

/-! ## Everything is freed once -/

/-- What is allocated for a value at an address. -/
def held (address : Nat) : JsonData → List Block
  | .object _ | .array _ | .string _ => [.contents address, .value address]
  | _ => [.value address]

/-- What is allocated for values that lie one behind the other. -/
def blocks (address : Nat) : List JsonValue → List Block
  | [] => []
  | value :: values => held address value.data ++ blocks (address + 1) values

theorem blocks_append (address : Nat) (values later : List JsonValue) :
    blocks address (values ++ later) =
      blocks address values ++ blocks (address + values.length) later := by
  induction values generalizing address with
  | nil => rfl
  | cons value values ih =>
      rw [List.cons_append, blocks, blocks, ih, List.append_assoc,
        List.length_cons, Nat.add_assoc, Nat.add_comm 1]

/-- The address that a block belongs to. -/
def Block.address : Block → Nat
  | .value address | .contents address => address

theorem address_of_mem_held {address : Nat} {data : JsonData} {block : Block}
    (mem : block ∈ held address data) : block.address = address := by
  cases data <;> simp only [held, List.mem_cons, List.not_mem_nil] at mem <;>
    grind [Block.address]

theorem le_of_mem_blocks {address : Nat} {values : List JsonValue}
    {block : Block} (mem : block ∈ blocks address values) :
    address ≤ block.address := by
  induction values generalizing address with
  | nil => cases mem
  | cons value values ih =>
      rcases List.mem_append.mp mem with first | later
      · exact Nat.le_of_eq (address_of_mem_held first).symm
      · exact Nat.le_of_succ_le (ih later)

/-- No block is allocated twice. -/
theorem nodup_blocks (address : Nat) (values : List JsonValue) :
    (blocks address values).Nodup := by
  induction values generalizing address with
  | nil => exact List.nodup_nil
  | cons value values ih =>
      refine List.nodup_append'.mpr ⟨?_, ih _, ?_⟩
      · cases value.data <;> simp [held]
      · intro block first later
        have here := address_of_mem_held first
        have behind := le_of_mem_blocks later
        omega

mutual

/-- What is freed for a value is what was allocated for it. -/
theorem frees_perm (json : Json) (parent : Option Nat) (base : Nat) :
    (frees base json).Perm (blocks base (filled parent base json)) := by
  cases json with
  | array elements =>
      rw [frees, filled, layout, blocks]
      exact
        ((freesElements_perm elements base (base + 1)).append_right _).trans
          List.perm_append_comm
  | object members =>
      rw [frees, filled, layout, blocks]
      exact
        ((freesMembers_perm members base (base + 1)).append_right _).trans
          List.perm_append_comm
  | integer value => exact List.Perm.refl _
  | double value => exact List.Perm.refl _
  | string text => exact List.Perm.refl _
  | boolean value => exact List.Perm.refl _
  | null => exact List.Perm.refl _

theorem freesElements_perm (elements : List Json) (parent base : Nat) :
    (freesElements base elements).Perm
      (blocks base (layoutElements fill parent base elements)) := by
  cases elements with
  | nil => exact List.Perm.refl _
  | cons json elements =>
      rw [freesElements, layoutElements, blocks_append, length_layout]
      exact
        ((freesElements_perm elements parent _).append
          (frees_perm json (some parent) base)).trans List.perm_append_comm

theorem freesMembers_perm (members : List (CString × Json))
    (parent base : Nat) :
    (freesMembers base members).Perm
      (blocks base (layoutMembers fill parent base members)) := by
  cases members with
  | nil => exact List.Perm.refl _
  | cons member members =>
      obtain ⟨name, json⟩ := member
      rw [freesMembers, freesMember, sizeMember, layoutMembers, layoutMember,
        blocks_append, length_layout]
      exact
        ((freesMembers_perm members parent _).append
          (frees_perm json (some parent) base)).trans List.perm_append_comm

end

/-- The memory of a value is freed from the root. -/
theorem jsonValueFree_filled (value : Json) :
    Returns (jsonValueFree (filled none 0 value))
      ⟨gone (size value), frees 0 value⟩ := by
  have all := continues_value value [] [] [] none
  simp only [List.nil_append, List.append_nil, List.length_nil] at all
  have free :
      jsonValueFree (filled none 0 value) = fun rounds =>
        freeFrom rounds ⟨present (filled none 0 value), []⟩ (some 0) := by
    funext rounds
    cases value <;> rfl
  rw [free]
  refine all _ ⟨1, fun rounds more => ?_⟩
  cases rounds with
  | zero => omega
  | succ rounds => rfl

/--
What the parser allocated for a text is freed by `json_value_free`, every block
exactly once, and nothing is read after it is freed.
-/
theorem jsonValueFree_of_jsonParse {doubles : Doubles} {json : List Char}
    {values : List JsonValue} (fits : 24 * json.length < 2 ^ 31)
    (parsed : Returns (jsonParse doubles json) (.values values)) :
    ∃ heap, Returns (jsonValueFree values) heap ∧
      heap.values = gone values.length ∧ heap.freed.Nodup ∧
        heap.freed.Perm (blocks 0 values) := by
  rcases jsonParse_ends doubles fits with null | ⟨value, _, returns⟩
  · exact absurd (null.unique parsed) (by simp)
  · have memory := returns.unique parsed
    injection memory with memory
    subst memory
    have perm := frees_perm value none 0
    refine ⟨_, jsonValueFree_filled value, ?_, ?_, perm⟩
    · rw [filled, length_layout]
    · exact perm.nodup_iff.mpr (nodup_blocks 0 _)

theorem jsonValueFree_of_jsonParse_array :
    let memory := filled none 0 (.array [.string ['a']])
    ∃ heap, Returns (jsonValueFree memory) heap ∧
      heap.values = gone memory.length ∧ heap.freed.Nodup ∧
        heap.freed.Perm (blocks 0 memory) :=
  @jsonValueFree_of_jsonParse noDoubles ['[', '"', 'a', '"', ']'] _ (by decide)
    (jsonParse_of_denotes (by decide)
      ⟨[],
        Derives.array
          (Derives.element
            (Derives.string
              (Characters.plain 'a' (by decide) (by decide) (by decide)
                (Characters.close [']'])))
            (Derives.noElements true [])),
        Trailing.nil⟩)

end YiimpStratum.Parse
