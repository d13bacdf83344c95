import NullFlow.Analysis.Session
/-!
The values of expressions, and their transport into slots and out of them. A write records the
state of the value and the marks inside its type. A read puts the recorded marks back into the
declared type.
-/

namespace NullFlow

/-- What an object initializer establishes: the state of a member, found through a path of members
with their declared states. -/
structure Seed where
  path : List (String × FlowState)
  state : FlowState

/-- The value of an expression. Without a type the front end could not resolve it. -/
structure Value where
  state : FlowState
  ty? : Option Ty
  /-- The place that the expression denotes, if it is tracked. -/
  slot? : Option SlotId
  seeds : List Seed

namespace Value

/-- A value that lies at no place. -/
def loose (state : FlowState) (ty? : Option Ty) : Value := ⟨state, ty?, none, []⟩

def unresolved : Value := loose .maybeNull none

end Value

section Read

variable (table : SlotTable) (store : Store)

/-- The type with the state that the store records for the slot, if it records one. -/
def Ty.observed (slot : SlotId) (ty : Ty) : Ty :=
  match store.explicit (some slot) with
  | some state => ty.withState state
  | none => ty

mutual

/-- The type in which the marks inside are those that the store records below the slot. -/
def Ty.refine (slot : SlotId) : Ty → Ty
  | .array element mark =>
      match table.get? (.element slot) with
      | some child => .array (Ty.observed store child (Ty.refine child element)) mark
      | none => .array element mark
  | .named name arguments mark => .named name (Ty.refineAll slot 0 arguments) mark
  | ty => ty

/-- Refines type arguments from an index on. -/
def Ty.refineAll (slot : SlotId) : Nat → List Ty → List Ty
  | _, [] => []
  | index, ty :: rest =>
      (match table.get? (.typeArgument slot index) with
        | some child => Ty.observed store child (Ty.refine child ty)
        | none => ty) :: Ty.refineAll slot (index + 1) rest

end

/-- The value that lies in a slot of the declared type. -/
def Value.ofSlot (declared : Ty) (slot? : Option SlotId) : Value :=
  let state := store.lookup table slot?
  let ty := match slot? with
    | some slot => (declared.withState state).refine table store slot
    | none => declared.withState state
  ⟨state, some ty, slot?, []⟩

end Read

namespace Store

/-- Declares the slot of a nested position anew and records its state. An oblivious position
records none. -/
def record (key : SlotKey) (ty : Ty) (store : Store) : StateM SlotTable (SlotId × Store) := do
  let slot ← SlotTable.intern key ty.declaredState
  modify fun table => table.redeclare slot ty.declaredState
  return (slot, if ty.mark = .oblivious then store else store.assign (some slot) ty.declaredState)

mutual

/-- Records the marks inside a type below a slot. -/
def spill (slot : SlotId) : Ty → Store → StateM SlotTable Store
  | .array element _, store => do
      let (child, store) ← record (.element slot) element store
      spill child element store
  | .named _ arguments _, store => spillAll slot 0 arguments store
  | _, store => return store

/-- Records type arguments from an index on. -/
def spillAll (slot : SlotId) : Nat → List Ty → Store → StateM SlotTable Store
  | _, [], store => return store
  | index, ty :: rest, store => do
      let (child, store) ← record (.typeArgument slot index) ty store
      let store ← spill child ty store
      spillAll slot (index + 1) rest store

end

/-- Records the state of a member below a slot. -/
def plant (slot : SlotId) (store : Store) (seed : Seed) : StateM SlotTable Store := do
  let place ← seed.path.foldlM
    (fun place step => SlotTable.member place step.1 step.2) (some slot)
  return store.assign place seed.state

/-- Writes a value to a place. Everything known below the place gives way to what is known of the
value. -/
def write (slot? : Option SlotId) (value : Value) (store : Store) : StateM SlotTable Store :=
  match slot? with
  | none => return store
  | some slot => do
      let derived := (← get).descendants slot
      let store := (store.forget derived).assign (some slot) value.state
      let store ← match value.ty? with
        | some ty => spill slot ty store
        | none => pure store
      value.seeds.foldlM (plant slot) store

/-- Takes into account that any member of the name may have been written. -/
def invalidate (table : SlotTable) (name : String) (store : Store) : Store :=
  (table.membersNamed name).foldl
    (fun store slot => (store.forget (table.descendants slot)).assign (some slot) .maybeNull) store

end Store
end NullFlow
