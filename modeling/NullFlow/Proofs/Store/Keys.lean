import NullFlow.Proofs.Store.Growth
/-!
Keys of slots. Whatever an analysis does to a slot table, and whatever stores it does it with, every
slot keeps its number and its key.
-/

namespace NullFlow

namespace SlotTable

/-- The slots of the first table have the same numbers and keys in the second one. -/
structure Keeps (before after : SlotTable) : Prop where
  key? : ∀ {slot : Nat} {key : SlotKey}, before.key? slot = some key → after.key? slot = some key

section Tables

variable {table first second third : SlotTable}

theorem Keeps.refl (table : SlotTable) : Keeps table table := ⟨id⟩

/-- A table that keeps its keys twice keeps them. -/
theorem Keeps.trans (early : Keeps first second) (late : Keeps second third) :
    Keeps first third := ⟨fun found => late.key? (early.key? found)⟩

/-- A table that grows keeps its keys. -/
theorem Grows.keeps (grows : Grows first second) : Keeps first second := ⟨grows.kept⟩

theorem key?_eq_getElem {slot : Nat} (inside : slot < table.slots.size) :
    table.key? slot = some table.slots[slot].key :=
  key?_eq_some.mpr ⟨_, Array.getElem?_eq_getElem inside, rfl⟩

/-- A table that keeps its keys loses no slot. -/
theorem Keeps.size_le (keeps : Keeps first second) : first.size ≤ second.size := by
  by_contra smaller
  have inside : second.slots.size < first.slots.size := Nat.lt_of_not_le smaller
  exact absurd (lt_size_of_key? (keeps.key? (key?_eq_getElem inside))) (Nat.lt_irrefl _)

/-- The slot of a key stays the slot of the key. -/
theorem Keeps.get? (keeps : Keeps first second) {key : SlotKey} {slot : SlotId}
    (found : first.get? key = some slot) : second.get? key = some slot := by
  have atSlot := keeps.key? (key?_of_get? found)
  obtain ⟨inside, -, isFirst⟩ := Array.findIdx?_eq_some_iff_getElem.mp found
  have insideAfter : slot < second.slots.size := lt_size_of_key? atSlot
  refine Array.findIdx?_eq_some_iff_getElem.mpr ⟨insideAfter, ?_, ?_⟩
  · have same := (key?_eq_getElem insideAfter).symm.trans atSlot
    simpa using same
  · intro earlier before
    have insideBefore := Nat.lt_trans before inside
    have kept := keeps.key? (key?_eq_getElem insideBefore)
    have same := (key?_eq_getElem (Nat.lt_trans before insideAfter)).symm.trans kept
    rw [Option.some.inj same]
    exact isFirst earlier before

end Tables

section Slots

variable {table : SlotTable} {key : SlotKey}

/-- A new slot leaves the keys of the others alone. -/
theorem keeps_push (table : SlotTable) (key : SlotKey) (declared : FlowState) :
    table.Keeps ⟨table.slots.push ⟨key, declared⟩⟩ := by
  constructor
  intro slot other isKey
  rw [key?_push, if_neg (Nat.ne_of_lt (lt_size_of_key? isKey))]
  exact isKey

/-- Interning leaves all keys alone. -/
theorem keeps_intern (table : SlotTable) (key : SlotKey) (declared : FlowState) :
    table.Keeps (intern key declared table).2 := by
  rw [intern]
  cases table.get? key with
  | some slot => exact .refl table
  | none => exact keeps_push table key declared

/-- Looking for a slot adds at most a slot of the key. -/
theorem key?_of_intern {declared : FlowState} {slot : SlotId} {other : SlotKey}
    (found : (intern key declared table).2.key? slot = some other) :
    table.key? slot = some other ∨ other = key := by
  rw [intern] at found
  cases isSlot : table.get? key with
  | some known =>
      rw [isSlot] at found
      exact .inl found
  | none =>
      rw [isSlot, key?_push] at found
      split at found
      · exact .inr (Option.some.inj found).symm
      · exact .inl found

/-- Members of a name are added only by looking for one of them. -/
theorem membersNamed_intern {name : String} (other : key.isMemberNamed name = false)
    (declared : FlowState) :
    (intern key declared table).2.membersNamed name ⊆ table.membersNamed name := by
  intro slot member
  obtain ⟨parent, found⟩ := mem_membersNamed.mp member
  rcases key?_of_intern found with known | isKey
  · exact mem_membersNamed.mpr ⟨parent, known⟩
  · simp [← isKey, SlotKey.isMemberNamed] at other

theorem membersNamed_redeclare (table : SlotTable) (slot : SlotId) (declared : FlowState)
    (name : String) : (table.redeclare slot declared).membersNamed name = table.membersNamed name := by
  have sameSize : (table.redeclare slot declared).size = table.size := Array.size_modify ..
  simp only [membersNamed, sameSize, key?_redeclare]

end Slots

section Stable

variable {table after : SlotTable} {slot? : Option SlotId}

/-- A stable slot stays stable as long as keys are kept. -/
theorem Stable.keeps (stable : table.Stable slot?) (keeps : table.Keeps after) :
    after.Stable slot? := by
  obtain ⟨slot, isPlace, isStable⟩ := stable
  obtain ⟨key, isKey, keyStable⟩ := (Option.any_eq_true ..).mp isStable
  refine ⟨slot, isPlace, ?_⟩
  rw [keeps.key? isKey]
  exact keyStable

/-- Members of stable places are stable places. -/
theorem Stable.member (stable : table.Stable slot?) (name : String) (declared : FlowState) :
    (member slot? name declared table).2.Stable (member slot? name declared table).1 := by
  obtain ⟨slot, rfl, isStable⟩ := stable
  rw [SlotTable.member, if_pos isStable]
  have isKey := key?_intern table (.member slot name) declared
  exact ⟨_, rfl, congrArg (Option.any SlotKey.isStable) isKey⟩

end Stable

/-- Whatever table the action is given, the slots of the table keep their keys. -/
def KeepsKeys {Result : Type} (action : StateM SlotTable Result) : Prop :=
  ∀ table : SlotTable, table.Keeps (action table).2

namespace KeepsKeys

variable {Result Other Item : Type}

theorem pure (result : Result) : KeepsKeys (Pure.pure result : StateM SlotTable Result) :=
  fun table => .refl table

/-- Actions that keep the keys do so one after the other. -/
theorem bind {action : StateM SlotTable Result} {next : Result → StateM SlotTable Other}
    (early : KeepsKeys action) (late : ∀ result, KeepsKeys (next result)) :
    KeepsKeys (action >>= next) := fun table =>
  (early table).trans (late (action table).1 (action table).2)

theorem foldlM {body : Result → Item → StateM SlotTable Result} {items : List Item}
    (each : ∀ result, ∀ item, KeepsKeys (body result item)) (start : Result) :
    KeepsKeys (items.foldlM body start) := by
  induction items generalizing start with
  | nil => exact .pure start
  | cons item rest ih =>
      rw [List.foldlM_cons]
      exact .bind (each start item) ih

/-- Declaring a slot anew leaves its key alone. -/
theorem redeclare (slot : SlotId) (declared : FlowState) :
    KeepsKeys (modify fun table => table.redeclare slot declared) := fun table =>
  (grows_redeclare table slot declared).keeps

theorem intern (key : SlotKey) (declared : FlowState) : KeepsKeys (intern key declared) :=
  fun table => keeps_intern table key declared

theorem derive (key : SlotKey) (declared : FlowState) :
    KeepsKeys (some <$> SlotTable.intern key declared) :=
  .bind (.intern key declared) fun _ => .pure _

/-- Asking for a member keeps the keys. -/
theorem member (receiver? : Option SlotId) (name : String) (declared : FlowState) :
    KeepsKeys (member receiver? name declared) := by
  intro table
  cases receiver? with
  | none => exact .refl table
  | some receiver =>
      rw [SlotTable.member]
      split
      · exact derive (.member receiver name) declared table
      · exact .refl table

theorem element (array? : Option SlotId) (declared : FlowState) :
    KeepsKeys (element array? declared) := by
  cases array? with
  | none => exact .pure none
  | some array => exact .derive (.element array) declared

end KeepsKeys

end SlotTable

namespace Store

open SlotTable (KeepsKeys)

/-- Recording a nested position keeps the keys. -/
theorem record_keeps (key : SlotKey) (ty : Ty) (store : Store) :
    KeepsKeys (store.record key ty) :=
  .bind (.intern key _) fun slot => .bind (.redeclare slot _) fun _ => .pure _

mutual

/-- Recording all marks inside a type keeps the keys. -/
theorem spill_keeps : ∀ (ty : Ty) (slot : SlotId) (store : Store),
    KeepsKeys (store.spill slot ty)
  | .array element _, slot, store => by
      rw [spill]
      exact .bind (record_keeps _ _ _) fun recorded => spill_keeps element recorded.1 recorded.2
  | .named _ arguments _, slot, store => by
      rw [spill]
      exact spillAll_keeps arguments slot 0 store
  | .null _, _, _ => .pure _
  | .value .., _, _ => .pure _
  | .parameter .., _, _ => .pure _
  | .delegate .., _, _ => .pure _
  | .dynamic _, _, _ => .pure _
  | .error .., _, _ => .pure _

theorem spillAll_keeps : ∀ (arguments : List Ty) (slot : SlotId) (index : Nat) (store : Store),
    KeepsKeys (store.spillAll slot index arguments)
  | [], _, _, _ => .pure _
  | ty :: rest, slot, index, store => by
      rw [spillAll]
      exact .bind (record_keeps _ _ _) fun recorded =>
        .bind (spill_keeps ty recorded.1 recorded.2) fun store =>
          spillAll_keeps rest slot (index + 1) store

end

/-- Planting a seed keeps the keys. -/
theorem plant_keeps (slot : SlotId) (store : Store) (seed : Seed) :
    KeepsKeys (store.plant slot seed) :=
  .bind (.foldlM (fun place (step : String × FlowState) => .member place step.1 step.2) _) fun _ => .pure _

/-- A write keeps the keys. -/
theorem write_keeps (slot? : Option SlotId) (value : Value) (store : Store) :
    KeepsKeys (store.write slot? value) := by
  cases slot? with
  | none => exact .pure store
  | some slot =>
      have planted (store : Store) : KeepsKeys (value.seeds.foldlM (plant slot) store) :=
        .foldlM (fun store seed => plant_keeps slot store seed) store
      have current : KeepsKeys get := fun table => .refl table
      apply current.bind
      intro table
      cases value.ty? with
      | none => exact planted _
      | some ty => exact .bind (spill_keeps ty slot _) planted

end Store

end NullFlow
