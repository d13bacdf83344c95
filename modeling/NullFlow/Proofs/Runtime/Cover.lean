import NullFlow.Proofs.Analysis.Rules.Values
import NullFlow.Proofs.Runtime.Memory
import NullFlow.Proofs.Store.Joins
/-!
What stores show of locals. A local that has no slot yet is as it was declared, so what is shown of
it does not change when its slot is made.
-/

namespace NullFlow

namespace Layout

variable {layout : Layout} {table later : SlotTable} {store first second : Store} {id : LocalId}
  {slot : SlotId}

/-- The state that a store shows of a local. -/
def shows (layout : Layout) (table : SlotTable) (store : Store) (id : LocalId) : FlowState :=
  match table.get? (.localVar id) with
  | some slot => store.lookup table (some slot)
  | none => layout.localState id

/-- A variable with a slot shows what the store knows of the slot. -/
theorem shows_slot (fits : layout.Fits table) (found : table.key? slot = some (.localVar id))
    (store : Store) : layout.shows table store id = store.lookup table (some slot) := by
  rw [shows, (SlotTable.get?_eq_some fits).mpr found]

/-- A variable without a slot shows what it was declared to be. -/
theorem shows_missing (missing : table.get? (.localVar id) = none) (store : Store) :
    layout.shows table store id = layout.localState id := by
  rw [shows, missing]

/-- A local has a slot in a table, or it has none. -/
theorem slot_or_missing (fits : layout.Fits table) (id : LocalId) :
    (∃ slot, table.key? slot = some (.localVar id)) ∨ table.get? (.localVar id) = none := by
  cases found : table.get? (.localVar id) with
  | none => exact .inr rfl
  | some slot => exact .inl ⟨slot, (SlotTable.get?_eq_some fits).mp found⟩

/-- A store that knows slots of a table alone shows the same with every larger table. -/
theorem shows_extends (fits : layout.Fits table) (fitsLater : layout.Fits later)
    (extended : table.Extends later) (within : store.Within table) (id : LocalId) :
    layout.shows later store id = layout.shows table store id := by
  rcases slot_or_missing fits id with ⟨slot, found⟩ | missing
  · rw [shows_slot fits found, shows_slot fitsLater (extended.key? found),
      Store.lookup_extends extended (SlotTable.lt_size_of_key? found)]
  · rw [shows_missing missing]
    rcases slot_or_missing fitsLater id with ⟨slot, found⟩ | missingLater
    · have outside : table.size ≤ slot := by
        by_contra inside
        rw [extended.key?_eq (Nat.lt_of_not_le inside)] at found
        rw [(SlotTable.get?_eq_some fits).mpr found] at missing
        cases missing
      have declared := SlotTable.declared_of_fits fitsLater found
      rw [shows_slot fitsLater found, within.lookup_outside outside]
      exact (Option.some.inj declared).symm
    · exact shows_missing missingLater store

/-- A bound of a store shows null wherever the store does. -/
theorem shows_below (fits : layout.Fits table) (below : Store.Below table first second)
    (reachable : first.isReachable = true) (null : layout.shows table first id = .maybeNull) :
    layout.shows table second id = .maybeNull := by
  rcases slot_or_missing fits id with ⟨slot, found⟩ | missing
  · rw [shows_slot fits found] at null ⊢
    exact (below.admits slot ⟨reachable, null⟩).2
  · rw [shows_missing missing] at null ⊢
    exact null

/-- Recording the state of a local changes what is shown of this local alone. -/
theorem shows_assign (fits : layout.Fits table) (found : table.key? slot = some (.localVar id))
    (reachable : store.isReachable = true) (state : FlowState) (other : LocalId) :
    layout.shows table (store.assign (some slot) state) other =
      if other = id then state else layout.shows table store other := by
  rcases slot_or_missing fits other with ⟨place, isPlace⟩ | missing
  · rw [shows_slot fits isPlace, shows_slot fits isPlace, Store.lookup_assign reachable]
    by_cases same : other = id
    · subst same
      obtain rfl : place = slot := Option.some.inj
        (((SlotTable.get?_eq_some fits).mpr isPlace).symm.trans
          ((SlotTable.get?_eq_some fits).mpr found))
      rw [if_pos rfl, if_pos rfl]
    · have differ : place ≠ slot := by
        rintro rfl
        rw [found] at isPlace
        exact same (SlotKey.localVar.inj (Option.some.inj isPlace)).symm
      rw [if_neg differ, if_neg same]
  · rw [shows_missing missing, shows_missing missing, if_neg]
    rintro rfl
    rw [(SlotTable.get?_eq_some fits).mpr found] at missing
    cases missing

/-- No local is derived from a slot, so dropping what is derived from one changes no local. -/
theorem shows_forget (fits : layout.Fits table) (slot : SlotId) (store : Store) (id : LocalId) :
    layout.shows table (store.forget (table.descendants slot)) id =
      layout.shows table store id := by
  rcases slot_or_missing fits id with ⟨place, isPlace⟩ | missing
  · have isRoot : place ∉ table.descendants slot := by
      intro member
      rw [SlotTable.descendants_eq, SlotTable.mem_derived] at member
      obtain ⟨_, parent, isParent, _⟩ := member
      rw [SlotTable.parent?, isPlace] at isParent
      cases isParent
    rw [shows_slot fits isPlace, shows_slot fits isPlace, Store.lookup_forget, if_neg isRoot]
  · rw [shows_missing missing, shows_missing missing]

/-- Where nothing is recorded, every local is as declared. -/
theorem shows_entry (fits : layout.Fits table) (id : LocalId) :
    layout.shows table .entry id = layout.localState id := by
  rcases slot_or_missing fits id with ⟨slot, found⟩ | missing
  · rw [shows_slot fits found]
    exact (Option.some.inj (SlotTable.declared_of_fits fits found)).symm
  · exact shows_missing missing _

end Layout

namespace Store

variable {table : SlotTable} (first second : Store)

/-- The first store is below the join. -/
theorem below_join_left : Below table first (first.join table second) where
  reachable reachable := by rw [isReachable_join, reachable, Bool.true_or]
  admits slot admits :=
    (admits_join (agrees_refl first table) (agrees_refl second table) slot).mpr (.inl admits)

/-- The second store is below the join. -/
theorem below_join_right : Below table second (first.join table second) where
  reachable reachable := by rw [isReachable_join, reachable, Bool.or_true]
  admits slot admits :=
    (admits_join (agrees_refl first table) (agrees_refl second table) slot).mpr (.inr admits)

end Store

end NullFlow

/-!
What a store says of a memory. A store covers the memories in which a local holds null only if the
store shows that it may. Whatever the analysis does to a store has its counterpart for memories.
-/

namespace NullFlow

variable {layout : Layout} {table later : SlotTable} {store first second : Store}
  {memory after : Memory}

/-- The memory may be one that the store describes. -/
structure Store.Covers (layout : Layout) (table : SlotTable) (store : Store) (memory : Memory) :
    Prop where
  within : store.Within table
  reachable : store.isReachable = true
  null : ∀ id, memory.isNull id = true → layout.shows table store id = .maybeNull

/-- The place, if there is one, is the slot of a local that holds such a value. -/
def SlotTable.Holds (table : SlotTable) (slot? : Option SlotId) (isNull : Bool)
    (memory : Memory) : Prop :=
  ∀ slot, slot? = some slot →
    ∃ id, table.key? slot = some (.localVar id) ∧ memory.isNull id = isNull

namespace SlotTable.Holds

variable {slot? : Option SlotId} {isNull : Bool}

/-- What holds of a place holds in every larger table. -/
theorem extend (holds : table.Holds slot? isNull memory) (extended : table.Extends later) :
    later.Holds slot? isNull memory := by
  intro slot isSlot
  obtain ⟨id, found, same⟩ := holds slot isSlot
  exact ⟨id, extended.key? found, same⟩

/-- Only what the locals hold matters. -/
theorem frame (holds : table.Holds slot? isNull memory) (same : after.isNull = memory.isNull) :
    table.Holds slot? isNull after := by
  intro slot isSlot
  obtain ⟨id, found, held⟩ := holds slot isSlot
  exact ⟨id, found, same ▸ held⟩

theorem nowhere (table : SlotTable) (isNull : Bool) (memory : Memory) :
    table.Holds none isNull memory := fun _ none => by cases none

/-- What is recorded of a place of a local is recorded of a slot of the table. -/
theorem within_assign (holds : table.Holds slot? isNull memory) (within : store.Within table)
    (state : FlowState) : (store.assign slot? state).Within table := by
  refine within.assign (fun slot same => ?_) state
  obtain ⟨id, found, _⟩ := holds slot same
  exact SlotTable.lt_size_of_key? found

end SlotTable.Holds

/-- The value may be one that is null or not as it is here, and that lies where it is said to. -/
structure Value.Covers (table : SlotTable) (value : Value) (isNull : Bool) (memory : Memory) :
    Prop where
  state : isNull = true → value.state = .maybeNull
  place : table.Holds value.slot? isNull memory
  seeds : value.seeds = []

namespace Value.Covers

variable {value : Value} {isNull : Bool}

theorem extend (covers : value.Covers table isNull memory) (extended : table.Extends later) :
    value.Covers later isNull memory := ⟨covers.state, covers.place.extend extended, covers.seeds⟩

/-- A value covers the memory as long as no variable is written. -/
theorem frame (covers : value.Covers table isNull memory) (same : after.isNull = memory.isNull) :
    value.Covers table isNull after := ⟨covers.state, covers.place.frame same, covers.seeds⟩

/-- A value that lies at no place. -/
theorem loose {state : FlowState} (holds : isNull = true → state = .maybeNull) (ty? : Option Ty) :
    (Value.loose state ty?).Covers table isNull memory := ⟨holds, .nowhere _ _ _, rfl⟩

end Value.Covers

namespace Store.Covers

/-- Only what the locals hold matters. -/
theorem frame (covers : store.Covers layout table memory) (same : after.isNull = memory.isNull) :
    store.Covers layout table after :=
  ⟨covers.within, covers.reachable, fun id null => covers.null id (same ▸ null)⟩

theorem extend (covers : store.Covers layout table memory) (fits : layout.Fits table)
    (fitsLater : layout.Fits later) (extended : table.Extends later) :
    store.Covers layout later memory where
  within := covers.within.extend extended
  reachable := covers.reachable
  null id null := by
    rw [Layout.shows_extends fits fitsLater extended covers.within]
    exact covers.null id null

/-- A store that covers a memory in a larger table covers it in any table that it knows. -/
theorem restrict (covers : store.Covers layout later memory) (fits : layout.Fits table)
    (fitsLater : layout.Fits later) (extended : table.Extends later) (within : store.Within table) :
    store.Covers layout table memory where
  within := within
  reachable := covers.reachable
  null id null := by
    rw [← Layout.shows_extends fits fitsLater extended within]
    exact covers.null id null

/-- A store above one that covers the memory covers it too. -/
theorem below (covers : first.Covers layout table memory) (fits : layout.Fits table)
    (below : Store.Below table first second) (within : second.Within table) :
    second.Covers layout table memory where
  within := within
  reachable := below.reachable covers.reachable
  null id null := Layout.shows_below fits below covers.reachable (covers.null id null)

/-- A join covers what its first store covers. -/
theorem join_left (covers : first.Covers layout table memory) (fits : layout.Fits table)
    (within : second.Within table) : (first.join table second).Covers layout table memory :=
  covers.below fits (below_join_left first second) (covers.within.join within table)

/-- A join covers what its second store covers. -/
theorem join_right (covers : second.Covers layout table memory) (fits : layout.Fits table)
    (within : first.Within table) : (first.join table second).Covers layout table memory :=
  covers.below fits (below_join_right first second) (within.join covers.within table)

/-- A store may learn the state of a place that holds such a value. -/
theorem learn (covers : store.Covers layout table memory) (fits : layout.Fits table)
    {slot? : Option SlotId} {isNull : Bool} (holds : table.Holds slot? isNull memory)
    {state : FlowState} (learned : isNull = true → state = .maybeNull) :
    (store.assign slot? state).Covers layout table memory := by
  cases slot? with
  | none => rwa [assign_none]
  | some slot =>
      obtain ⟨id, found, held⟩ := holds slot rfl
      refine ⟨holds.within_assign covers.within state, ?_, fun other null => ?_⟩
      · rw [isReachable_assign]
        exact covers.reachable
      · rw [Layout.shows_assign fits found covers.reachable]
        by_cases same : other = id
        · subst same
          rw [if_pos rfl]
          exact learned (held ▸ null)
        · rw [if_neg same]
          exact covers.null other null

/-- Writing a value to a local of the memory, and what is known of it to the slot of the local. -/
theorem write (covers : store.Covers layout table memory) (fits : layout.Fits table) {slot : SlotId}
    {id : LocalId} (found : table.key? slot = some (.localVar id)) {isNull : Bool}
    {state : FlowState} (known : isNull = true → state = .maybeNull) :
    ((store.forget (table.descendants slot)).assign (some slot) state).Covers layout table
      (memory.write id isNull) where
  within := (covers.within.forget _).assign
    (fun _ same => Option.some.inj same ▸ SlotTable.lt_size_of_key? found) state
  reachable := by
    rw [isReachable_assign, isReachable_forget]
    exact covers.reachable
  null other null := by
    have reachable : (store.forget (table.descendants slot)).isReachable = true := by
      rw [isReachable_forget]
      exact covers.reachable
    rw [Layout.shows_assign fits found reachable, Layout.shows_forget fits]
    simp only [Memory.write] at null
    split
    · rename_i same
      rw [if_pos same] at null
      exact known null
    · rename_i differ
      rw [if_neg differ] at null
      exact covers.null other null

/-- At the entry of a method every local is as declared. -/
theorem entry (fits : layout.Fits table)
    (declared : ∀ id, memory.isNull id = true → layout.localState id = .maybeNull) :
    Store.entry.Covers layout table memory where
  within := within_entry table
  reachable := rfl
  null id null := by
    rw [Layout.shows_entry fits]
    exact declared id null

end Store.Covers

end NullFlow
