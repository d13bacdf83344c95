import Mathlib.Data.List.Nodup
import Mathlib.Logic.Function.Basic
import Mathlib.Logic.Function.Iterate
import NullFlow.Proofs.Store.Derivation
/-!
Slot tables with an index from keys to slots, and with a list of children for every slot. Both say
nothing that the keys do not say. What is derived from a slot is collected with a stack of slots whose
children are still to be visited.
-/

namespace NullFlow

/-- A slot with the slots that are derived from it directly, in the order of their creation. -/
structure IndexedSlot where
  info : SlotInfo
  children : List SlotId

structure IndexedTable where
  slots : Array IndexedSlot
  index : SlotKey → Option SlotId

namespace IndexedTable

def empty : IndexedTable := ⟨#[], fun _ => none⟩

/-- The slots alone. -/
def table (indexed : IndexedTable) : SlotTable := ⟨indexed.slots.map IndexedSlot.info⟩

def children (indexed : IndexedTable) (slot : SlotId) : List SlotId :=
  (indexed.slots[slot]?.map IndexedSlot.children).getD []

/-- Adds a child to a slot. A root is the child of none. -/
def link (slots : Array IndexedSlot) (parent? : Option SlotId) (child : SlotId) : Array IndexedSlot :=
  match parent? with
  | some parent => slots.modify parent fun slot => { slot with children := slot.children ++ [child] }
  | none => slots

/-- A new slot goes into the index, and its parent gets it as a child. -/
def insert (indexed : IndexedTable) (key : SlotKey) (declared : FlowState) : IndexedTable :=
  ⟨(link indexed.slots key.parent? indexed.slots.size).push ⟨⟨key, declared⟩, []⟩,
    Function.update indexed.index key (some indexed.slots.size)⟩

/-- The slot that the index has for the key, or a new one. -/
def intern (key : SlotKey) (declared : FlowState) : StateM IndexedTable SlotId := fun indexed =>
  match indexed.index key with
  | some slot => (slot, indexed)
  | none => (indexed.slots.size, indexed.insert key declared)

def redeclare (indexed : IndexedTable) (slot : SlotId) (declared : FlowState) : IndexedTable :=
  ⟨indexed.slots.modify slot fun other => { other with info := { other.info with declared } },
    indexed.index⟩

/-- The index and the children say what the keys say. -/
structure Consistent (indexed : IndexedTable) : Prop where
  index : ∀ key slot, indexed.index key = some slot ↔ indexed.table.key? slot = some key
  children : ∀ slot, indexed.children slot =
    (List.range indexed.table.size).filter fun child => indexed.table.parent? child = some slot
  rooted : indexed.table.Rooted

section Consistency

variable {indexed : IndexedTable} {key : SlotKey}

theorem size_table (indexed : IndexedTable) : indexed.table.size = indexed.slots.size :=
  Array.size_map ..

/-- The index finds what a search of the table finds. -/
theorem Consistent.get?_table (consistent : indexed.Consistent) (key : SlotKey) :
    indexed.table.get? key = indexed.index key := by
  cases found : indexed.table.get? key with
  | some slot => exact ((consistent.index key slot).mpr (SlotTable.key?_of_get? found)).symm
  | none =>
      cases isIndexed : indexed.index key with
      | none => rfl
      | some slot =>
          obtain ⟨info, atSlot, same⟩ :=
            SlotTable.key?_eq_some.mp ((consistent.index key slot).mp isIndexed)
          exact absurd same (SlotTable.get?_eq_none found atSlot)

/-- The children of a slot are the slots that name it as their parent. -/
theorem Consistent.mem_children (consistent : indexed.Consistent) {slot child : SlotId} :
    child ∈ indexed.children slot ↔ indexed.table.IsParent slot child := by
  rw [consistent.children, List.mem_filter, List.mem_range, decide_eq_true_eq]
  exact and_iff_right_of_imp SlotTable.IsParent.lt_size

/-- No child is listed twice. -/
theorem Consistent.nodup_children (consistent : indexed.Consistent) (slot : SlotId) :
    (indexed.children slot).Nodup := by
  rw [consistent.children]
  exact List.nodup_range.filter _

theorem table_empty : empty.table = SlotTable.empty :=
  congrArg SlotTable.mk Array.map_empty

/-- The empty table is consistent. -/
theorem consistent_empty : empty.Consistent where
  index key slot := by
    rw [table_empty]
    constructor
    · intro isIndexed
      cases isIndexed
    · intro isKey
      cases isKey
  children slot := by
    rw [table_empty]
    rfl
  rooted := table_empty ▸ SlotTable.rooted_empty

theorem map_link (slots : Array IndexedSlot) (parent? : Option SlotId) (child : SlotId) :
    (link slots parent? child).map IndexedSlot.info = slots.map IndexedSlot.info := by
  cases parent? with
  | none => rfl
  | some parent =>
      apply Array.ext_getElem?
      intro other
      simp only [link, Array.getElem?_map, Array.getElem?_modify]
      split
      · cases slots[other]? <;> rfl
      · rfl

/-- Insertion adds one slot to the table. -/
theorem table_insert (indexed : IndexedTable) (key : SlotKey) (declared : FlowState) :
    (indexed.insert key declared).table = ⟨indexed.table.slots.push ⟨key, declared⟩⟩ := by
  simp only [insert, table, Array.map_push, map_link]

/-- Without index and children, the table with the slot is the table of slots with the slot. -/
theorem Consistent.intern_table (consistent : indexed.Consistent) (key : SlotKey)
    (declared : FlowState) : SlotTable.intern key declared indexed.table =
      ((intern key declared indexed).1, (intern key declared indexed).2.table) := by
  rw [SlotTable.intern, intern, consistent.get?_table]
  cases indexed.index key with
  | some slot => rfl
  | none =>
      simp only [table_insert]
      rw [size_table]

/-- Declaring a slot anew in the indexed table does so in the table. -/
theorem redeclare_table (indexed : IndexedTable) (slot : SlotId) (declared : FlowState) :
    (indexed.redeclare slot declared).table = indexed.table.redeclare slot declared := by
  refine congrArg SlotTable.mk (Array.ext_getElem? fun other => ?_)
  simp only [redeclare, table, Array.getElem?_map, Array.getElem?_modify]
  split
  · cases indexed.slots[other]? <;> rfl
  · rfl

theorem children_redeclare (indexed : IndexedTable) (slot : SlotId) (declared : FlowState)
    (other : SlotId) : (indexed.redeclare slot declared).children other = indexed.children other := by
  rw [children, children, redeclare, Array.getElem?_modify]
  split
  · cases indexed.slots[other]? <;> rfl
  · rfl

/-- Insertion adds a child to one slot at most. -/
theorem children_insert (indexed : IndexedTable) {key : SlotKey} (declared : FlowState)
    (older : indexed.table.Has key.parent?) (slot : SlotId) :
    (indexed.insert key declared).children slot =
      indexed.children slot ++ if key.parent? = some slot then [indexed.slots.size] else [] := by
  have linked : (link indexed.slots key.parent? indexed.slots.size).size = indexed.slots.size := by
    rw [← Array.size_map, map_link, Array.size_map]
  rw [children, children, insert, Array.getElem?_push, linked]
  by_cases isLast : slot = indexed.slots.size
  · have noParent : key.parent? ≠ some slot := fun isParent => by
      have inside := older.inside slot isParent
      rw [size_table, isLast] at inside
      exact Nat.lt_irrefl _ inside
    simp [isLast, isLast ▸ noParent]
  · rw [if_neg isLast]
    cases isParent : key.parent? with
    | none => simp [link]
    | some parent =>
        have inside : parent < indexed.slots.size := size_table indexed ▸ older.inside parent isParent
        rw [link, Array.getElem?_modify]
        by_cases same : parent = slot
        · subst same
          simp [Array.getElem?_eq_getElem inside]
        · simp [same]

/-- Insertion gives the new slot its parent. -/
theorem parent?_insert (indexed : IndexedTable) (key : SlotKey) (declared : FlowState)
    (slot : SlotId) : (indexed.insert key declared).table.parent? slot =
      if slot = indexed.table.size then key.parent? else indexed.table.parent? slot := by
  rw [table_insert, SlotTable.parent?, SlotTable.key?_push]
  split
  · rfl
  · rfl

/-- A new key may be derived from any slot of the table. -/
theorem Consistent.insert (consistent : indexed.Consistent) (isNew : indexed.index key = none)
    (declared : FlowState) (older : indexed.table.Has key.parent?) :
    (indexed.insert key declared).Consistent where
  index := by
    intro other slot
    have isKey : (indexed.insert key declared).table.key? slot =
        if slot = indexed.table.size then some key else indexed.table.key? slot := by
      rw [table_insert, SlotTable.key?_push]
    rw [isKey]
    change Function.update indexed.index key (some indexed.slots.size) other = some slot ↔ _
    rw [Function.update_apply, ← size_table]
    by_cases sameKey : other = key
    · subst sameKey
      rw [if_pos rfl, Option.some.injEq]
      by_cases isLast : slot = indexed.table.size
      · rw [if_pos isLast]
        exact iff_of_true isLast.symm rfl
      · rw [if_neg isLast]
        refine iff_of_false (Ne.symm isLast) fun found => ?_
        rw [(consistent.index other slot).mpr found] at isNew
        cases isNew
    · rw [if_neg sameKey, consistent.index]
      by_cases isLast : slot = indexed.table.size
      · rw [if_pos isLast, Option.some.injEq]
        refine iff_of_false (fun found => ?_) (Ne.symm sameKey)
        exact Nat.lt_irrefl _ (isLast ▸ SlotTable.lt_size_of_key? found)
      · rw [if_neg isLast]
  children := by
    intro slot
    have size : (indexed.insert key declared).table.size = indexed.table.size + 1 := by
      rw [table_insert]
      exact Array.size_push ..
    have before : (List.range indexed.table.size).filter (fun child =>
        decide ((indexed.insert key declared).table.parent? child = some slot)) =
          indexed.children slot := by
      rw [consistent.children]
      refine List.filter_congr fun child member => ?_
      rw [parent?_insert, if_neg (Nat.ne_of_lt (List.mem_range.mp member))]
    rw [size, List.range_succ, List.filter_append, before, List.filter_singleton, parent?_insert,
      if_pos rfl]
    rw [children_insert indexed declared older, size_table]
    cases isParent : decide (key.parent? = some slot) <;> simp_all
  rooted := by
    rw [table_insert]
    exact (SlotTable.grows_push declared older.inside).rooted consistent.rooted

/-- Interning a key keeps the table consistent. -/
theorem Consistent.intern (consistent : indexed.Consistent) (key : SlotKey) (declared : FlowState)
    (older : indexed.table.Has key.parent?) :
    (IndexedTable.intern key declared indexed).2.Consistent := by
  rw [IndexedTable.intern]
  cases isIndexed : indexed.index key with
  | some slot => exact consistent
  | none => exact consistent.insert isIndexed declared older

/-- Declaring a slot anew keeps the table consistent. -/
theorem Consistent.redeclare (consistent : indexed.Consistent) (slot : SlotId)
    (declared : FlowState) : (indexed.redeclare slot declared).Consistent := by
  have sameSize : (indexed.redeclare slot declared).table.size = indexed.table.size := by
    rw [redeclare_table]
    exact Array.size_modify ..
  have sameKey (other : SlotId) :
      (indexed.redeclare slot declared).table.key? other = indexed.table.key? other := by
    rw [redeclare_table, SlotTable.key?_redeclare]
  refine ⟨fun key other => ?_, fun other => ?_, ?_⟩
  · rw [sameKey]
    exact consistent.index key other
  · rw [children_redeclare, consistent.children, sameSize]
    refine List.filter_congr fun child _ => ?_
    rw [SlotTable.parent?, SlotTable.parent?, sameKey]
  · rw [redeclare_table]
    exact (SlotTable.grows_redeclare indexed.table slot declared).rooted consistent.rooted

end Consistency

/-- A walk through the slots below a slot: the slots to be visited, the next one first, and those
that have been. -/
structure Walk where
  stack : List SlotId
  found : List SlotId

/-- Visits the next slot. The children that were added last are visited first. -/
def visit (indexed : IndexedTable) (walk : Walk) : Walk :=
  match walk.stack with
  | [] => walk
  | slot :: rest => ⟨(indexed.children slot).reverse ++ rest, walk.found ++ [slot]⟩

/-- The walk below a slot after a number of visits. -/
def walk (indexed : IndexedTable) (slot : SlotId) (visits : Nat) : Walk :=
  indexed.visit^[visits] ⟨(indexed.children slot).reverse, []⟩

section Walks

variable {indexed : IndexedTable}

/-- Visits to the slots of the stack end, and they find the slots of the second list. -/
def Collects (indexed : IndexedTable) (stack found : List SlotId) : Prop :=
  ∀ rest before, ∃ visits,
    indexed.visit^[visits] ⟨stack ++ rest, before⟩ = ⟨rest, before ++ found⟩

/-- What two stacks collect their concatenation collects. -/
theorem Collects.append {stack found stack' found' : List SlotId}
    (early : indexed.Collects stack found) (late : indexed.Collects stack' found') :
    indexed.Collects (stack ++ stack') (found ++ found') := by
  intro rest before
  obtain ⟨first, toMiddle⟩ := early (stack' ++ rest) before
  obtain ⟨second, toEnd⟩ := late rest (before ++ found)
  refine ⟨second + first, ?_⟩
  rw [Function.iterate_add_apply, List.append_assoc, toMiddle, toEnd, List.append_assoc]

/-- A visited slot is collected before what its children collect. -/
theorem Collects.visit {slot : SlotId} {found : List SlotId}
    (below : indexed.Collects (indexed.children slot).reverse found) :
    indexed.Collects [slot] (slot :: found) := by
  intro rest before
  obtain ⟨visits, toEnd⟩ := below rest (before ++ [slot])
  refine ⟨visits + 1, ?_⟩
  rw [Function.iterate_succ_apply]
  refine toEnd.trans ?_
  rw [List.append_assoc, List.singleton_append]

/-- What is derived from a slot is spanned by one of its children. -/
theorem Consistent.derives_iff_spans (consistent : indexed.Consistent) {slot other : SlotId} :
    indexed.table.Derives slot other ↔
      ∃ child ∈ (indexed.children slot).reverse, indexed.table.Spans child other := by
  simp only [List.mem_reverse, consistent.mem_children]
  constructor
  · intro derives
    cases derives using Relation.TransGen.head_induction_on with
    | single isParent => exact ⟨other, isParent, .inl rfl⟩
    | head isParent below => exact ⟨_, isParent, .inr below⟩
  · rintro ⟨child, isParent, spans⟩
    exact isParent.derives spans

/-- No child of a slot is derived from another one. -/
theorem Consistent.not_derives_sibling (consistent : indexed.Consistent) {slot child other : SlotId}
    (isParent : indexed.table.IsParent slot child) (isOther : indexed.table.IsParent slot other) :
    ¬indexed.table.Derives child other := by
  intro derives
  obtain ⟨parent, ofOther, atChild⟩ := SlotTable.derives_iff.mp derives
  obtain rfl : slot = parent := Option.some.inj (isOther.symm.trans ofOther)
  have younger := consistent.rooted.older isParent
  rcases atChild with rfl | below
  · exact Nat.lt_irrefl _ younger
  · exact Nat.lt_asymm younger (consistent.rooted.lt_of_derives below)

/-- Different children of a slot span different slots. -/
theorem Consistent.disjoint_siblings (consistent : indexed.Consistent) {slot child other : SlotId}
    (isParent : indexed.table.IsParent slot child) (isOther : indexed.table.IsParent slot other)
    (differ : child ≠ other) {below : SlotId} (ofChild : indexed.table.Spans child below) :
    ¬indexed.table.Spans other below := by
  intro ofOther
  have apart := consistent.not_derives_sibling isParent isOther
  have apart' := consistent.not_derives_sibling isOther isParent
  rcases ofChild with rfl | ofChild
  · rcases ofOther with rfl | ofOther
    · exact differ rfl
    · exact apart' ofOther
  · rcases ofOther with rfl | ofOther
    · exact apart ofChild
    · rcases ofChild.comparable ofOther with same | derives | derives
      · exact differ same
      · exact apart derives
      · exact apart' derives

/-- The walk through a list of slots finds what they span, if it does so for each of them and they
span different slots. -/
theorem exists_collects {slots : List SlotId}
    (each : ∀ slot ∈ slots, ∃ found, indexed.Collects [slot] found ∧ found.Nodup ∧
      ∀ other, other ∈ found ↔ indexed.table.Spans slot other)
    (disjoint : slots.Pairwise fun slot next =>
      ∀ other, indexed.table.Spans slot other → ¬indexed.table.Spans next other) :
    ∃ found, indexed.Collects slots found ∧ found.Nodup ∧
      ∀ other, other ∈ found ↔ ∃ slot ∈ slots, indexed.table.Spans slot other := by
  induction slots with
  | nil => exact ⟨[], fun rest before => ⟨0, by simp⟩, .nil, by simp⟩
  | cons slot rest ih =>
      obtain ⟨ofSlot, ofRest⟩ := List.forall_mem_cons.mp each
      obtain ⟨apart, disjointRest⟩ := List.pairwise_cons.mp disjoint
      obtain ⟨first, collectsFirst, nodupFirst, isFirst⟩ := ofSlot
      obtain ⟨others, collectsOthers, nodupOthers, isOther⟩ := ih ofRest disjointRest
      refine ⟨first ++ others, collectsFirst.append collectsOthers, ?_, ?_⟩
      · refine nodupFirst.append nodupOthers fun other inFirst inOthers => ?_
        obtain ⟨next, inRest, spans⟩ := (isOther other).mp inOthers
        exact apart next inRest other ((isFirst other).mp inFirst) spans
      · intro other
        rw [List.mem_append, isFirst, isOther, List.exists_mem_cons_iff]

/-- What the children of a slot span is walked through once they can be walked through. -/
theorem Consistent.exists_collects_children (consistent : indexed.Consistent) {slot : SlotId}
    (each : ∀ child, indexed.table.IsParent slot child → ∃ found, indexed.Collects [child] found ∧
      found.Nodup ∧ ∀ other, other ∈ found ↔ indexed.table.Spans child other) :
    ∃ found, indexed.Collects (indexed.children slot).reverse found ∧ found.Nodup ∧
      ∀ other, other ∈ found ↔ indexed.table.Derives slot other := by
  simp only [consistent.derives_iff_spans]
  apply exists_collects
  · intro child member
    exact each child (consistent.mem_children.mp (List.mem_reverse.mp member))
  · have nodup := List.nodup_reverse.mpr (consistent.nodup_children slot)
    refine nodup.imp_of_mem fun {child other} member memberOther differ below ofChild => ?_
    exact consistent.disjoint_siblings (consistent.mem_children.mp (List.mem_reverse.mp member))
      (consistent.mem_children.mp (List.mem_reverse.mp memberOther)) differ ofChild

/-- The walk from a slot ends and finds what the slot spans. A child is younger than its parent, so
there are fewer slots left for it to span. -/
theorem Consistent.exists_collects_slot (consistent : indexed.Consistent) (slot : SlotId) :
    ∃ found, indexed.Collects [slot] found ∧ found.Nodup ∧
      ∀ other, other ∈ found ↔ indexed.table.Spans slot other := by
  -- The number of slots that are younger than the slot bounds the depth below it.
  induction left : indexed.table.size - slot using Nat.strongRecOn generalizing slot with
  | ind _ ih =>
      have ofChild : ∀ child, indexed.table.IsParent slot child → ∃ found,
          indexed.Collects [child] found ∧ found.Nodup ∧
            ∀ other, other ∈ found ↔ indexed.table.Spans child other := by
        intro child isParent
        have younger := consistent.rooted.older isParent
        have inside := isParent.lt_size
        exact ih _ (by omega) child rfl
      obtain ⟨found, collects, nodup, isFound⟩ := consistent.exists_collects_children ofChild
      refine ⟨slot :: found, collects.visit, ?_, fun other => ?_⟩
      · refine List.nodup_cons.mpr ⟨fun member => ?_, nodup⟩
        exact Nat.lt_irrefl _ (consistent.rooted.lt_of_derives ((isFound slot).mp member))
      · rw [List.mem_cons, isFound]
        rfl

/-- The walk below a slot ends and finds every slot that is derived from it once. -/
theorem Consistent.walk_ends (consistent : indexed.Consistent) (slot : SlotId) :
    ∃ visits found, indexed.walk slot visits = ⟨[], found⟩ ∧ found.Nodup ∧
      ∀ other, other ∈ found ↔ indexed.table.Derives slot other := by
  obtain ⟨found, collects, nodup, isFound⟩ :=
    consistent.exists_collects_children fun child _ => consistent.exists_collects_slot child
  obtain ⟨visits, ends⟩ := collects [] []
  rw [List.append_nil, List.nil_append] at ends
  exact ⟨visits, found, ends, nodup, isFound⟩

end Walks

end IndexedTable

end NullFlow
