import NullFlow.Code.Symbol
/-!
Slots: the places that the analysis tracks. A slot is a local, `this`, or a place derived from
another slot. Members are derived from locals, `this` and other members alone, because only those
denote the same object every time. A place that is not tracked has no slot.
-/

namespace NullFlow

abbrev SlotId := Nat

/-- What a slot stands for. -/
inductive SlotKey where
  | localVar (id : LocalId)
  | this
  | member (parent : SlotId) (name : String)
  /-- All elements of an array share one slot. -/
  | element (parent : SlotId)
  | typeArgument (parent : SlotId) (index : Nat)
deriving DecidableEq

namespace SlotKey

/-- The slot that the key is derived from. -/
def parent? : SlotKey → Option SlotId
  | localVar _ => none
  | this => none
  | member parent _ => some parent
  | element parent => some parent
  | typeArgument parent _ => some parent

/-- Members may be derived from a slot with this key. -/
def isStable : SlotKey → Bool
  | localVar _ => true
  | this => true
  | member .. => true
  | element _ => false
  | typeArgument .. => false

/-- The key stands for a member of the name. -/
def isMemberNamed (name : String) : SlotKey → Bool
  | member _ other => other == name
  | _ => false

end SlotKey

/-- A key with the state of the slot where nothing else is known. -/
structure SlotInfo where
  key : SlotKey
  declared : FlowState

/-- The slots of one analysis, numbered in the order of their creation. -/
structure SlotTable where
  slots : Array SlotInfo

namespace SlotTable

def empty : SlotTable := ⟨#[]⟩

def size (table : SlotTable) : Nat := table.slots.size

/-- The slot of the key. -/
def get? (table : SlotTable) (key : SlotKey) : Option SlotId :=
  table.slots.findIdx? fun slot => slot.key == key

def key? (table : SlotTable) (slot : SlotId) : Option SlotKey :=
  table.slots[slot]?.map SlotInfo.key

/-- The state of a slot where nothing else is known. Outside the table nothing ever is. -/
def declared (table : SlotTable) (slot : SlotId) : FlowState :=
  match table.slots[slot]? with
  | some info => info.declared
  | none => .maybeNull

/-- The slot that a slot is derived from directly. -/
def parent? (table : SlotTable) (slot : SlotId) : Option SlotId :=
  (table.key? slot).bind SlotKey.parent?

/-- Declares the state of a slot anew. The slot may have been reached through another type. -/
def redeclare (table : SlotTable) (slot : SlotId) (declared : FlowState) : SlotTable :=
  ⟨table.slots.modify slot fun info => { info with declared }⟩

/-- The slot of the key. A new slot starts with the declared state. -/
def intern (key : SlotKey) (declared : FlowState) : StateM SlotTable SlotId := fun table =>
  match table.get? key with
  | some slot => (slot, table)
  | none => (table.size, ⟨table.slots.push ⟨key, declared⟩⟩)

/-- The slot of a member. The member is tracked only if its receiver is stable. -/
def member (receiver? : Option SlotId) (name : String) (declared : FlowState) :
    StateM SlotTable (Option SlotId) := fun table =>
  match receiver? with
  | none => (none, table)
  | some receiver =>
      if (table.key? receiver).any SlotKey.isStable then
        (some <$> intern (.member receiver name) declared) table
      else (none, table)

/-- The slot of the elements of an array. -/
def element (array? : Option SlotId) (declared : FlowState) :
    StateM SlotTable (Option SlotId) := fun table =>
  match array? with
  | none => (none, table)
  | some array => (some <$> intern (.element array) declared) table

/-- The slot of a type argument. Only the low 32 bits of the index count. -/
def typeArgument (generic? : Option SlotId) (index : Nat) (declared : FlowState) :
    StateM SlotTable (Option SlotId) := fun table =>
  match generic? with
  | none => (none, table)
  | some generic => (some <$> intern (.typeArgument generic (index % (1 <<< 32))) declared) table

/-- All slots derived from a slot, directly or not, in ascending order. A slot is younger than the
slot it is derived from, so one pass in the order of creation finds them all. -/
def descendants (table : SlotTable) (slot : SlotId) : List SlotId :=
  (List.range table.size).foldl
    (fun found candidate =>
      match table.parent? candidate with
      | some parent =>
          if parent = slot || found.contains parent then found ++ [candidate] else found
      | none => found)
    []

/-- The slots of the members of a name, under any receiver. -/
def membersNamed (table : SlotTable) (name : String) : List SlotId :=
  (List.range table.size).filter fun slot => (table.key? slot).any (SlotKey.isMemberNamed name)

end SlotTable
end NullFlow
