import NullFlow.Proofs.Analysis.Comparison
import NullFlow.Analysis.Rules
/-!
Comparisons of stores, places and values, and what the operations on slots and stores do to them.
-/

namespace NullFlow

/-- The members on the path of a seed are declared as in the layout. -/
def Seed.Fits (layout : Layout) (seed : Seed) : Prop :=
  ∀ step ∈ seed.path, layout.memberState step.1 = step.2

def Seed.Alike (bound : Bound) (one two : Seed) : Prop :=
  one.path = two.path ∧ bound.Holds one.state two.state

/-- The value has a flat type, its slot is one of the table, and its seeds keep to the layout. -/
structure Value.Fits (layout : Layout) (table : SlotTable) (value : Value) : Prop where
  inside : ∀ slot : Nat, value.slot? = some slot → slot < table.size
  flat : value.ty?.all Ty.isFlat = true
  seeds : ∀ seed ∈ value.seeds, seed.Fits layout

/-- The values lie at the same place, and they differ at most in what is known of null. -/
structure Value.Alike (bound : Bound) (one two : Value) : Prop where
  slot : one.slot? = two.slot?
  state : bound.Holds one.state two.state
  shape : one.ty?.map Ty.shape = two.ty?.map Ty.shape
  seeds : List.Forall₂ (Seed.Alike bound) one.seeds two.seeds

/-- The slot is one of the table. If the store is tracked and reachable, then there is a slot. -/
structure Store.Places (tracked : Bool) (table : SlotTable) (slot? : Option SlotId)
    (store : Store) : Prop where
  inside : ∀ slot : Nat, slot? = some slot → slot < table.size
  within : store.Within table
  present : tracked = true → store.isReachable = true → slot?.isSome = true

/-- Places of a table are places of every extension. -/
theorem Store.Places.extend {tracked : Bool} {before after : SlotTable} {slot? : Option SlotId}
    {store : Store} (places : Store.Places tracked before slot? store)
    (extended : before.Extends after) : Store.Places tracked after slot? store where
  inside slot found := Nat.lt_of_lt_of_le (places.inside slot found) extended.size_le
  within := places.within.extend extended
  present := places.present

namespace Comparison

variable (pair : Comparison)

section Views

def states : View FlowState where
  fits _ _ := True
  alike := pair.bound.Holds
  grow _ _ := trivial

/-- Places of one table. -/
def place : View (Option SlotId) where
  fits table slot? := ∀ slot : Nat, slot? = some slot → slot < table.size
  alike one two := one = two
  grow extended inside slot found := Nat.lt_of_lt_of_le (inside slot found) extended.size_le

def stores : View Store where
  fits table store := store.Within table
  alike := Store.Matches pair.bound pair.target
  grow extended within := within.extend extended

/-- Places beside stores. -/
def places (tracked : Bool) : View (Option SlotId × Store) where
  fits table place := Store.Places tracked table place.1 place.2
  alike one two := one.1 = two.1 ∧ Store.Matches pair.bound pair.target one.2 two.2
  grow extended places := places.extend extended

/-- Values beside stores. -/
def values (tracked : Bool) : View (Value × Store) where
  fits table result := result.1.Fits pair.layout table ∧
    Store.Places tracked table result.1.slot? result.2
  alike one two := one.1.Alike pair.bound two.1 ∧ Store.Matches pair.bound pair.target one.2 two.2
  grow extended fits :=
    ⟨⟨fun slot found => Nat.lt_of_lt_of_le (fits.1.inside slot found) extended.size_le,
        fits.1.flat, fits.1.seeds⟩,
      fits.2.extend extended⟩

def branches : View Branches where
  fits table branches := branches.whenTrue.Within table ∧ branches.whenFalse.Within table
  alike one two := Store.Matches pair.bound pair.target one.whenTrue two.whenTrue ∧
    Store.Matches pair.bound pair.target one.whenFalse two.whenFalse
  grow extended fits := ⟨fits.1.extend extended, fits.2.extend extended⟩

/-- Targets of assignments beside stores. -/
def targets (tracked : Bool) : View (Target × Store) where
  fits table result := Store.Places tracked table result.1.slot? result.2
  alike one two := one.1.slot? = two.1.slot? ∧ one.1.weak = two.1.weak ∧
    Store.Matches pair.bound pair.target one.2 two.2
  grow extended fits := fits.extend extended

end Views

variable {pair} {first second : Session} {one two : Store} {tracked : Bool}

section Stores

namespace Related

/-- Related places come with related stores. -/
theorem stores_of_places {slotOne slotTwo : Option SlotId}
    (related : pair.Related (pair.places tracked) first second (slotOne, one) (slotTwo, two)) :
    pair.Related pair.stores first second one two :=
  related.with related.fitsFirst.within related.fitsSecond.within fun known =>
    (related.alike known).2

/-- Related places have related slots. -/
theorem place_of_places {slotOne slotTwo : Option SlotId}
    (related : pair.Related (pair.places tracked) first second (slotOne, one) (slotTwo, two)) :
    pair.Related place first second slotOne slotTwo :=
  related.with related.fitsFirst.inside related.fitsSecond.inside fun known =>
    (related.alike known).1

/-- Related values lie at related places. -/
theorem places_of_values {valueOne valueTwo : Value}
    (related : pair.Related (pair.values tracked) first second (valueOne, one) (valueTwo, two)) :
    pair.Related (pair.places tracked) first second (valueOne.slot?, one) (valueTwo.slot?, two) :=
  related.with related.fitsFirst.2 related.fitsSecond.2 fun known =>
    ⟨(related.alike known).1.slot, (related.alike known).2⟩

theorem place_of_values {valueOne valueTwo : Value}
    (related : pair.Related (pair.values tracked) first second (valueOne, one) (valueTwo, two)) :
    pair.Related place first second valueOne.slot? valueTwo.slot? :=
  related.places_of_values.place_of_places

theorem stores_of_values {valueOne valueTwo : Value}
    (related : pair.Related (pair.values tracked) first second (valueOne, one) (valueTwo, two)) :
    pair.Related pair.stores first second one two := related.places_of_values.stores_of_places

theorem states_of_values {valueOne valueTwo : Value}
    (related : pair.Related (pair.values tracked) first second (valueOne, one) (valueTwo, two)) :
    pair.Related pair.states first second valueOne.state valueTwo.state :=
  related.with trivial trivial fun known => (related.alike known).1.state

theorem states {view : View Store} (related : pair.Related view first second one two)
    (state : FlowState) : pair.Related pair.states first second state state :=
  related.with trivial trivial fun _ => Bound.refl state

/-- A place goes along with a store that is reachable alike. -/
theorem placeStores {slotOne slotTwo : Option SlotId} {three four : Store}
    (places : pair.Related (pair.places tracked) first second (slotOne, one) (slotTwo, two))
    (stores : pair.Related pair.stores first second three four)
    (reachableOne : three.isReachable = true → one.isReachable = true)
    (reachableTwo : four.isReachable = true → two.isReachable = true) :
    pair.Related (pair.places tracked) first second (slotOne, three) (slotTwo, four) :=
  places.with
    ⟨places.fitsFirst.inside, stores.fitsFirst, fun isTracked reachable =>
      places.fitsFirst.present isTracked (reachableOne reachable)⟩
    ⟨places.fitsSecond.inside, stores.fitsSecond, fun isTracked reachable =>
      places.fitsSecond.present isTracked (reachableTwo reachable)⟩
    fun known => ⟨(places.alike known).1, stores.alike known⟩

/-- Assigning related states to related places relates the stores. -/
theorem assign {slotOne slotTwo : Option SlotId} {stateOne stateTwo : FlowState}
    (places : pair.Related place first second slotOne slotTwo)
    (states : pair.Related pair.states first second stateOne stateTwo)
    (stores : pair.Related pair.stores first second one two) :
    pair.Related pair.stores first second (one.assign slotOne stateOne)
      (two.assign slotTwo stateTwo) := by
  refine stores.with (stores.fitsFirst.assign places.fitsFirst _)
    (stores.fitsSecond.assign places.fitsSecond _) fun known => ?_
  obtain rfl : slotOne = slotTwo := places.alike known
  exact (stores.alike known).assign _ (states.alike known)

/-- Joins of related stores are related. -/
theorem join {three four : Store} (left : pair.Related pair.stores first second one two)
    (right : pair.Related pair.stores first second three four) :
    pair.Related pair.stores first second (one.join first.slots three)
      (two.join second.slots four) := by
  refine left.with (left.fitsFirst.join right.fitsFirst _)
    (left.fitsSecond.join right.fitsSecond _) fun known => ?_
  exact Store.Matches.join known left.reached left.fitsFirst right.fitsFirst (left.alike known)
    (right.alike known)

theorem unreachable {view : View Store} (related : pair.Related view first second one two) :
    pair.Related pair.stores first second .unreachable .unreachable :=
  related.with (fun _ _ found => by cases found) (fun _ _ found => by cases found) fun _ =>
    .unreachable

/-- The states of a place in both stores. -/
theorem lookup {slotOne slotTwo : Option SlotId}
    (places : pair.Related place first second slotOne slotTwo)
    (stores : pair.Related pair.stores first second one two) :
    pair.Related pair.states first second (one.lookup first.slots slotOne)
      (two.lookup second.slots slotTwo) := by
  refine stores.with trivial trivial fun known => ?_
  obtain rfl : slotOne = slotTwo := places.alike known
  cases slotOne with
  | none => exact Bound.refl _
  | some slot =>
      have inside : slot < first.slots.size := places.fitsFirst slot rfl
      rw [← Store.lookup_extends known inside,
        Store.lookup_extends stores.reached (Nat.lt_of_lt_of_le inside known.size_le)]
      exact (stores.alike known).states slot

end Related

end Stores

section Actions

variable {Result : Type} {view : View Result}

/-- An action that asks for the slot table. -/
theorem Runs.withSlots {nextOne nextTwo : SlotTable → Analysis Result}
    (next : pair.Runs view first second (nextOne first.slots) (nextTwo second.slots)) :
    pair.Runs view first second (Analysis.slots >>= nextOne) (Analysis.slots >>= nextTwo) :=
  ⟨⟨next.aloneFirst.grows, next.aloneFirst.fits⟩, ⟨next.aloneSecond.grows, next.aloneSecond.fits⟩,
    next.alike⟩

/-- The slots of an action that changes the table alone. -/
theorem grows_onSlots {action : StateM SlotTable Result} {session : Session}
    (extended : session.slots.Extends (action session.slots).2)
    (fits : pair.layout.Fits (action session.slots).2) :
    pair.Grows session (Analysis.onSlots action session).2 :=
  ⟨extended, fits, fun running => (Bool.or_eq_false_iff.mp running).1⟩

/-- One slot, which is known in both tables. -/
def slot : View SlotId where
  fits table slot := slot < table.size
  alike one two := one = two
  grow extended inside := Nat.lt_of_lt_of_le inside extended.size_le

/-- Interning a key of the layout keeps to the layout. -/
theorem intern_alone {session : Session} (fits : pair.layout.Fits session.slots) {key : SlotKey}
    {declared : FlowState} (known : pair.layout.stateOf key = some declared)
    (older : ∀ parent : Nat, key.parent? = some parent → parent < session.slots.size) :
    pair.Alone slot session (Analysis.onSlots (SlotTable.intern key declared)) := by
  obtain ⟨extended, fitsAfter, found⟩ := SlotTable.intern_grows fits known older
  exact ⟨grows_onSlots extended fitsAfter, SlotTable.lt_size_of_key? found⟩

/-- The second run finds the slot that the first run finds or makes. -/
theorem intern_alike {first second : SlotTable} (fitsFirst : pair.layout.Fits first)
    (fitsSecond : pair.layout.Fits second) (reached : pair.target.Extends second) {key : SlotKey}
    {declared : FlowState} (known : pair.layout.stateOf key = some declared)
    (older : ∀ parent : Nat, key.parent? = some parent → parent < first.size)
    (extends_target : (SlotTable.intern key declared first).2.Extends pair.target) :
    (SlotTable.intern key declared first).1 = (SlotTable.intern key declared second).1 := by
  obtain ⟨_, _, found⟩ := SlotTable.intern_grows fitsFirst known older
  rw [SlotTable.intern_known fitsSecond (reached.key? (extends_target.key? found))]

/-- Both runs find or make slots for the same variable. -/
theorem Runs.intern {view : View Store} (related : pair.Related view first second one two)
    {key : SlotKey} {declared : FlowState} (known : pair.layout.stateOf key = some declared)
    (root : key.parent? = none) :
    pair.Runs slot first second (Analysis.onSlots (SlotTable.intern key declared))
      (Analysis.onSlots (SlotTable.intern key declared)) where
  aloneFirst := intern_alone related.layoutFirst known (by simp [root])
  aloneSecond := intern_alone related.layoutSecond known (by simp [root])
  alike extended := intern_alike related.layoutFirst related.layoutSecond related.reached known
    (by simp [root]) extended

end Actions

end Comparison
end NullFlow
