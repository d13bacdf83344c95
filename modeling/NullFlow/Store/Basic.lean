import NullFlow.SortedMap
import NullFlow.Store.SlotTable
/-!
Stores: what is known of every slot at one point of a program. A slot without an entry is in its
declared state. A point that control never reaches has the unreachable store, which is the bottom
of the join.
-/

namespace NullFlow

/-- The recorded states of slots. -/
abbrev Facts := SortedMap SlotId FlowState

inductive Store where
  | unreachable
  | reachable (facts : Facts)

namespace Store

/-- The store at the entry of a method. -/
def entry : Store := reachable SortedMap.empty

def isReachable : Store → Bool
  | unreachable => false
  | reachable _ => true

def facts : Store → Facts
  | unreachable => SortedMap.empty
  | reachable facts => facts

/-- The state recorded for a slot. -/
def explicit (store : Store) (slot? : Option SlotId) : Option FlowState :=
  slot?.bind store.facts.get?

/-- The state of a slot. Nothing is known of a place without a slot. -/
def lookup (store : Store) (table : SlotTable) : Option SlotId → FlowState
  | none => .maybeNull
  | some slot => (store.facts.get? slot).getD (table.declared slot)

/-- Records the state of a slot. -/
def assign (store : Store) (slot? : Option SlotId) (state : FlowState) : Store :=
  match store, slot? with
  | reachable facts, some slot => reachable (facts.insert slot state)
  | store, _ => store

/-- Drops the records of slots, which fall back to their declared states. -/
def forget (store : Store) (slots : List SlotId) : Store :=
  match store with
  | unreachable => unreachable
  | reachable facts => reachable (facts.keep fun slot => !slots.contains slot)

/-- Records that slots may be null. -/
def widen (store : Store) (slots : List SlotId) : Store :=
  slots.foldl (fun store slot => store.assign (some slot) .maybeNull) store

/-- What holds in both of two stores. -/
def join (table : SlotTable) : Store → Store → Store
  | unreachable, other => other
  | store, unreachable => store
  | reachable first, reachable second =>
      let withDeclared slot state := FlowState.join state (table.declared slot)
      reachable (.unionWith withDeclared withDeclared (fun _ => FlowState.join) first second)

/-- The slots of which two stores know different states, in ascending order. -/
def changedSlots (table : SlotTable) (first second : Store) : List SlotId :=
  let union := SortedMap.unionWith (fun _ state => state) (fun _ state => state)
    (fun _ state _ => state) first.facts second.facts
  union.keys.filter fun slot => first.lookup table (some slot) != second.lookup table (some slot)

/-- Two stores know the same states of all slots. -/
def equivalent (table : SlotTable) (first second : Store) : Bool :=
  first.isReachable == second.isReachable && (changedSlots table first second).isEmpty

end Store
end NullFlow
