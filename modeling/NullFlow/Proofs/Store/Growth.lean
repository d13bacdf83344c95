import NullFlow.Proofs.Store.Joins
/-!
Growth of slot tables. Whatever is done to a table, its slots keep their keys, and every slot is
derived from an older one. Stores record states of slots of the table alone.
-/

namespace NullFlow

namespace SlotTable

/-- The slots of the first table keep their keys in the second one. -/
structure Grows (before after : SlotTable) : Prop where
  kept : ∀ {slot : Nat} {key : SlotKey}, before.key? slot = some key → after.key? slot = some key
  rooted : before.Rooted → after.Rooted

/-- The place is no place outside the table. -/
structure Has (table : SlotTable) (slot? : Option SlotId) : Prop where
  inside : ∀ slot : Nat, slot? = some slot → slot < table.size

section Growth

variable {table first second third : SlotTable}

theorem rooted_empty : empty.Rooted := by
  constructor
  intro slot parent isParent
  cases isParent

theorem Grows.refl (table : SlotTable) : Grows table table := ⟨id, id⟩

/-- A table that grows twice grows. -/
theorem Grows.trans (early : Grows first second) (late : Grows second third) :
    Grows first third :=
  ⟨fun found => late.kept (early.kept found), fun rooted => late.rooted (early.rooted rooted)⟩

/-- A table that grows loses no slot. -/
theorem Grows.size_le (grows : Grows first second) : first.size ≤ second.size := by
  by_contra smaller
  have inside : second.slots.size < first.slots.size := Nat.lt_of_not_le smaller
  have found : first.key? second.slots.size = some first.slots[second.slots.size].key :=
    key?_eq_some.mpr ⟨_, Array.getElem?_eq_getElem inside, rfl⟩
  exact absurd (lt_size_of_key? (grows.kept found)) (Nat.lt_irrefl _)

end Growth

section Slots

variable {table : SlotTable}

/-- The slot that is found for a key has it. -/
theorem key?_of_get? {key : SlotKey} {slot : SlotId} (found : table.get? key = some slot) :
    table.key? slot = some key := by
  obtain ⟨inside, same, _⟩ := Array.findIdx?_eq_some_iff_getElem.mp found
  exact key?_eq_some.mpr ⟨_, Array.getElem?_eq_getElem inside, by simpa using same⟩

/-- A new slot has its key, and the others keep theirs. -/
theorem key?_push (table : SlotTable) (key : SlotKey) (declared : FlowState) (slot : SlotId) :
    key? ⟨table.slots.push ⟨key, declared⟩⟩ slot =
      if slot = table.size then some key else table.key? slot := by
  rw [key?, Array.getElem?_push, size]
  by_cases isNew : slot = table.slots.size
  · rw [if_pos isNew, if_pos isNew, Option.map_some]
  · rw [if_neg isNew, if_neg isNew, key?]

/-- A new slot may be derived from any slot of the table. -/
theorem grows_push {key : SlotKey} (declared : FlowState)
    (older : ∀ parent : Nat, key.parent? = some parent → parent < table.size) :
    table.Grows ⟨table.slots.push ⟨key, declared⟩⟩ := by
  constructor
  · intro slot other found
    rw [key?_push, if_neg (Nat.ne_of_lt (lt_size_of_key? found))]
    exact found
  · intro rooted
    constructor
    intro slot parent isParent
    rw [parent?, key?_push] at isParent
    split at isParent
    · rename_i isNew
      rw [isNew]
      exact older parent isParent
    · exact rooted.older isParent

/-- Interning a key grows the table, if the key names no slot outside. -/
theorem grows_intern {key : SlotKey} (declared : FlowState)
    (older : ∀ parent : Nat, key.parent? = some parent → parent < table.size) :
    table.Grows (intern key declared table).2 := by
  rw [intern]
  cases table.get? key with
  | some slot => exact .refl table
  | none => exact grows_push declared older

/-- The slot of a key has the key. -/
theorem key?_intern (table : SlotTable) (key : SlotKey) (declared : FlowState) :
    (intern key declared table).2.key? (intern key declared table).1 = some key := by
  rw [intern]
  cases found : table.get? key with
  | some slot => exact key?_of_get? found
  | none => simp [key?, size]

/-- A key that was interned is found again. -/
theorem get?_intern (key : SlotKey) (declared : FlowState) (table : SlotTable) :
    (intern key declared table).2.get? key = some (intern key declared table).1 := by
  rw [intern]
  cases found : table.get? key with
  | some slot => exact found
  | none =>
      have missing : table.slots.findIdx? (fun slot => slot.key == key) = none := found
      rw [get?, Array.findIdx?_push, missing]
      simp [size]

/-- A new slot is the one that was looked for. -/
theorem eq_of_new {slot : Nat} {key : SlotKey} {declared : FlowState} (isNew : table.size ≤ slot)
    (inside : slot < (intern key declared table).2.size) :
    slot = (intern key declared table).1 := by
  rw [intern] at inside ⊢
  cases found : table.get? key with
  | some known =>
      rw [found] at inside
      exact absurd inside (Nat.not_lt_of_le isNew)
  | none =>
      rw [found] at inside
      have last : slot < table.size + 1 := Nat.lt_of_lt_of_eq inside (Array.size_push ..)
      exact Nat.le_antisymm (Nat.le_of_lt_succ last) isNew

/-- Looking for a slot leaves alone what is declared of the other ones. -/
theorem declared_intern {slot : Nat} {key : SlotKey} {declared : FlowState}
    (differ : slot ≠ (intern key declared table).1) :
    (intern key declared table).2.declared slot = table.declared slot := by
  rw [intern] at differ ⊢
  cases found : table.get? key with
  | some known => rfl
  | none =>
      rw [found] at differ
      have notLast : slot ≠ table.slots.size := differ
      simp [SlotTable.declared, Array.getElem?_push, notLast]

/-- The place has a slot, and it denotes the same object every time. -/
def Stable (table : SlotTable) (slot? : Option SlotId) : Prop :=
  ∃ slot, slot? = some slot ∧ (table.key? slot).any SlotKey.isStable = true

/-- Members are tracked only below stable places. -/
theorem member_eq_none (receiver? : Option SlotId) (name : String) (declared : FlowState)
    (table : SlotTable) :
    (member receiver? name declared table).1 = none ↔ ¬table.Stable receiver? := by
  cases receiver? with
  | none => simp [member, Stable]
  | some receiver =>
      rw [member]
      cases stable : (table.key? receiver).any SlotKey.isStable with
      | false => simp [Stable, stable]
      | true =>
          rw [if_pos rfl]
          refine iff_of_false ?_ fun unstable => unstable ⟨receiver, rfl, stable⟩
          exact Option.some_ne_none _

/-- A slot that is declared anew keeps its key. -/
theorem key?_redeclare (table : SlotTable) (slot : SlotId) (declared : FlowState) (other : SlotId) :
    (table.redeclare slot declared).key? other = table.key? other := by
  rw [key?, key?, redeclare, Array.getElem?_modify]
  split
  · cases table.slots[other]? <;> rfl
  · rfl

/-- Declaring one slot anew leaves the others alone. -/
theorem declared_redeclare {slot other : SlotId} (differ : other ≠ slot) (declared : FlowState) :
    (table.redeclare slot declared).declared other = table.declared other := by
  simp [SlotTable.declared, redeclare, Array.getElem?_modify, Ne.symm differ]

theorem grows_redeclare (table : SlotTable) (slot : SlotId) (declared : FlowState) :
    table.Grows (table.redeclare slot declared) := by
  constructor
  · intro other key found
    rw [key?_redeclare]
    exact found
  · intro rooted
    constructor
    intro other parent isParent
    rw [parent?, key?_redeclare] at isParent
    exact rooted.older isParent

end Slots

end SlotTable

namespace Store

variable {table after : SlotTable} {store : Store}

/-- A store of a table is one of every larger table. -/
theorem Within.grow (within : store.Within table) (grows : table.Grows after) :
    store.Within after := fun slot state found =>
  Nat.lt_of_lt_of_le (within slot state found) grows.size_le

/-- An invalidation records slots of the table alone. -/
theorem Within.invalidate (within : store.Within table) (name : String) :
    (store.invalidate table name).Within table := by
  rw [invalidate_eq]
  apply within.invalidateAll
  intro slot member
  obtain ⟨parent, found⟩ := SlotTable.mem_membersNamed.mp member
  exact SlotTable.lt_size_of_key? found

end Store

end NullFlow
