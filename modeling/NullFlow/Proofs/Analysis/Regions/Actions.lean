import NullFlow.Analysis.Value
import NullFlow.Proofs.Analysis.Cancellation
import NullFlow.Proofs.Analysis.Comparison
import NullFlow.Proofs.Analysis.Reachability
import NullFlow.Proofs.Store.Growth
/-!
Regions. A region says which slots code may touch and what stays true of slot tables and stores as
long as it touches no others. The laws of a region are those of the operations on tables and stores.
Whatever is written to a place of the region, everything that is derived from the place is a place of
the region too.
-/

namespace NullFlow

/-- What code may touch, and what holds as long as it touches nothing else. -/
structure Region where
  /-- The tables that the region is about. -/
  Valid : SlotTable → Prop
  /-- What may become of a table. -/
  Grows : SlotTable → SlotTable → Prop
  /-- The slots that may be declared anew and written. -/
  Place : SlotTable → SlotId → Prop
  /-- What holds of every store. -/
  Holds : SlotTable → Store → Prop
  /-- The variables that the code may name. -/
  Reads : LocalId → Prop
  /-- The members that the code may name. -/
  Names : String → Prop
  /-- Values may be written, and then everything that is derived from their place is dropped. -/
  Writes : Prop
  /-- All members of the name may be invalidated. -/
  Loses : String → Prop
  refl : ∀ table, Grows table table
  trans : ∀ {first second third}, Grows first second → Grows second third → Grows first third
  valid_grow : ∀ {table after}, Valid table → Grows table after → Valid after
  place_grow : ∀ {table after slot}, Place table slot → Grows table after → Place after slot
  holds_grow : ∀ {table after store}, Holds table store → Grows table after → Holds after store
  root : ∀ {table key} declared, Valid table → key.parent? = none →
    (∀ id, key = .localVar id → Reads id) → Grows table (SlotTable.intern key declared table).2 ∧
      Place (SlotTable.intern key declared table).2 (SlotTable.intern key declared table).1
  derive : ∀ {table parent key} declared, Valid table → Place table parent →
    key.parent? = some parent →
    (∀ name, key = .member parent name →
      (table.key? parent).any SlotKey.isStable = true ∧ Names name) →
    Grows table (SlotTable.intern key declared table).2 ∧
      Place (SlotTable.intern key declared table).2 (SlotTable.intern key declared table).1
  redeclare : ∀ {table slot} declared, Place table slot → Grows table (table.redeclare slot declared)
  unreachable : ∀ table, Holds table .unreachable
  assign : ∀ {table slot store} state, Place table slot → Holds table store →
    Holds table (store.assign (some slot) state)
  join : ∀ {table first second} other, Holds table first → Holds table second →
    Holds table (first.join other second)
  forget : ∀ {table slot store}, Writes → Valid table → Place table slot → Holds table store →
    Holds table (store.forget (table.descendants slot))
  invalidate : ∀ {table name store}, Loses name → Valid table → Holds table store →
    Holds table (store.invalidate table name)

namespace Region

variable {region : Region} {table after : SlotTable} {store : Store} {slot? : Option SlotId}

/-- Untracked places have no slot, and tracked ones have one of the region. -/
structure Has (region : Region) (table : SlotTable) (slot? : Option SlotId) : Prop where
  place : ∀ slot, slot? = some slot → region.Place table slot

theorem has_none (region : Region) (table : SlotTable) : region.Has table none :=
  ⟨fun _ none => by cases none⟩

theorem has_some {slot : SlotId} (place : region.Place table slot) : region.Has table (some slot) :=
  ⟨fun _ same => Option.some.inj same ▸ place⟩

/-- A place stays a place of the region when the table grows. -/
theorem Has.grow (has : region.Has table slot?) (grows : region.Grows table after) :
    region.Has after slot? :=
  ⟨fun slot same => region.place_grow (has.place slot same) grows⟩

/-- Assigning to a place of the region keeps what holds of stores. -/
theorem Has.assign (has : region.Has table slot?) (holds : region.Holds table store)
    (state : FlowState) : region.Holds table (store.assign slot? state) := by
  cases slot? with
  | none => rwa [Store.assign_none]
  | some slot => exact region.assign state (has.place slot rfl) holds

/-- Every seed is for a member, and the members on its path may be named. -/
def Plants (region : Region) (seeds : List Seed) : Prop :=
  ∀ seed ∈ seeds, seed.path ≠ [] ∧ ∀ step ∈ seed.path, region.Names step.1

/-- The region with the stores left out of account. -/
def onTables (region : Region) : Region :=
  { region with
    Holds := fun _ _ => True
    Writes := True
    Loses := fun _ => True
    holds_grow := fun _ _ => trivial
    unreachable := fun _ => trivial
    assign := fun _ _ _ => trivial
    join := fun _ _ _ => trivial
    forget := fun _ _ _ _ => trivial
    invalidate := fun _ _ _ => trivial }

/-- On every table of the region the action makes no more of the table than the region allows, and
its result fits the table after it. -/
def Allows {Result : Type} (region : Region) (table : SlotTable) (action : StateM SlotTable Result)
    (fits : SlotTable → Result → Prop) : Prop :=
  region.Valid table → region.Grows table (action table).2 ∧ fits (action table).2 (action table).1

section Actions

variable {Result Other : Type} {fits : SlotTable → Result → Prop} {other : SlotTable → Other → Prop}

theorem Allows.pure {result : Result} (holds : fits table result) :
    region.Allows table (Pure.pure result) fits := fun _ => ⟨region.refl table, holds⟩

/-- Whoever shows that an action is allowed may assume that the table is valid. -/
theorem Allows.of_valid {action : StateM SlotTable Result}
    (allows : region.Valid table → region.Allows table action fits) :
    region.Allows table action fits := fun valid => allows valid valid

/-- What follows an action may rely on the table that the action leaves and on its result. -/
theorem Allows.bind {first : StateM SlotTable Result} {next : Result → StateM SlotTable Other}
    (early : region.Allows table first fits)
    (late : ∀ result after, region.Grows table after → fits after result →
      region.Allows after (next result) other) : region.Allows table (first >>= next) other := by
  intro valid
  obtain ⟨growsFirst, fitsFirst⟩ := early valid
  obtain ⟨growsRest, fitsRest⟩ := late _ _ growsFirst fitsFirst (region.valid_grow valid growsFirst)
  exact ⟨region.trans growsFirst growsRest, fitsRest⟩

/-- A loop over slots is allowed if every round is, on whatever table the rounds before it leave. -/
theorem Allows.foldlM {Item : Type} {step : Result → Item → StateM SlotTable Result}
    {items : List Item}
    (each : ∀ item ∈ items, ∀ result after, region.Grows table after → fits after result →
      region.Allows after (step result item) fits) {start : Result} (holds : fits table start) :
    region.Allows table (items.foldlM step start) fits := by
  induction items generalizing table start with
  | nil => exact .pure holds
  | cons item rest ih =>
      rw [List.foldlM_cons]
      apply (each item List.mem_cons_self start table (region.refl table) holds).bind
      intro result after grows holdsAfter
      refine ih ?_ holdsAfter
      intro later member result last growsLast
      exact each later (List.mem_cons_of_mem _ member) result last (region.trans grows growsLast)

end Actions

section Slots

variable {key : SlotKey} {parent : SlotId}

/-- The slot of a variable that the code may name, or of the receiver, is a place of the region. -/
theorem allows_root (declared : FlowState) (noParent : key.parent? = none)
    (reads : ∀ id, key = .localVar id → region.Reads id) :
    region.Allows table (SlotTable.intern key declared) region.Place :=
  fun valid => region.root declared valid noParent reads

/-- A slot derived from a place of the region is a place too. A member has to be one that may be
named, below a stable place. -/
theorem allows_derived (declared : FlowState) (place : region.Place table parent)
    (derived : key.parent? = some parent)
    (members : ∀ name, key = .member parent name →
      (table.key? parent).any SlotKey.isStable = true ∧ region.Names name) :
    region.Allows table (SlotTable.intern key declared) region.Place :=
  fun valid => region.derive declared valid place derived members

theorem allows_redeclare {slot : SlotId} (place : region.Place table slot) (declared : FlowState) :
    region.Allows table (modify fun table => table.redeclare slot declared) fun _ _ => True :=
  fun _ => ⟨region.redeclare declared place, trivial⟩

/-- The slot of a member that may be named is a place if its receiver has one. -/
theorem allows_member {receiver? : Option SlotId} (has : region.Has table receiver?) {name : String}
    (named : region.Names name) (declared : FlowState) :
    region.Allows table (SlotTable.member receiver? name declared) region.Has := by
  cases receiver? with
  | none => exact .pure (region.has_none table)
  | some receiver =>
      cases stable : (table.key? receiver).any SlotKey.isStable with
      | true =>
          have place := has.place receiver rfl
          have derived : region.Allows table (SlotTable.intern (.member receiver name) declared)
              region.Place :=
            allows_derived declared place rfl fun other same =>
              ⟨stable, (SlotKey.member.inj same).2 ▸ named⟩
          have found : region.Allows table
              (some <$> SlotTable.intern (.member receiver name) declared) region.Has :=
            derived.bind fun slot after _ place => .pure (has_some place)
          intro valid
          rw [SlotTable.member, if_pos stable]
          exact found valid
      | false =>
          intro _
          rw [SlotTable.member, stable, if_neg Bool.false_ne_true]
          exact ⟨region.refl table, region.has_none table⟩

/-- The slot for the elements of an array is a place if the array has one. -/
theorem allows_element {array? : Option SlotId} (has : region.Has table array?)
    (declared : FlowState) :
    region.Allows table (SlotTable.element array? declared) region.Has := by
  cases array? with
  | none => exact .pure (region.has_none table)
  | some array =>
      have derived : region.Allows table (SlotTable.intern (.element array) declared) region.Place :=
        allows_derived declared (has.place array rfl) rfl fun _ same => by cases same
      exact derived.bind fun slot after _ place => .pure (has_some place)

end Slots

section Writes

/-- Positions inside the type of a place are places too. -/
theorem allows_record {parent : SlotId} {key : SlotKey} (place : region.Place table parent)
    (derived : key.parent? = some parent) (nameless : ∀ name, key ≠ .member parent name) (ty : Ty)
    (holds : region.Holds table store) :
    region.Allows table (store.record key ty) fun after recorded =>
      region.Place after recorded.1 ∧ region.Holds after recorded.2 := by
  apply (allows_derived ty.declaredState place derived fun name same =>
    absurd same (nameless name)).bind
  intro slot grown growsGrown isPlace
  apply (allows_redeclare isPlace ty.declaredState).bind
  intro _ last growsLast _
  have isPlaceLast := region.place_grow isPlace growsLast
  have holdsLast := region.holds_grow holds (region.trans growsGrown growsLast)
  apply Allows.pure
  refine ⟨isPlaceLast, ?_⟩
  dsimp only
  split
  · exact holdsLast
  · exact region.assign _ isPlaceLast holdsLast

mutual

theorem allows_spill : ∀ (ty : Ty) {table : SlotTable} {slot : SlotId} {store : Store},
    region.Place table slot → region.Holds table store →
    region.Allows table (store.spill slot ty) region.Holds
  | .array element _, _, slot, _, place, holds => by
      rw [Store.spill]
      apply (allows_record place rfl (fun _ same => by cases same) element holds).bind
      rintro ⟨child, store⟩ after _ ⟨isChild, holds⟩
      exact allows_spill element isChild holds
  | .named _ arguments _, _, _, _, place, holds => allows_spillAll arguments 0 place holds
  | .null _, _, _, _, _, holds => .pure holds
  | .value .., _, _, _, _, holds => .pure holds
  | .parameter .., _, _, _, _, holds => .pure holds
  | .delegate .., _, _, _, _, holds => .pure holds
  | .dynamic _, _, _, _, _, holds => .pure holds
  | .error .., _, _, _, _, holds => .pure holds

theorem allows_spillAll : ∀ (arguments : List Ty) (index : Nat) {table : SlotTable} {slot : SlotId}
    {store : Store}, region.Place table slot → region.Holds table store →
    region.Allows table (store.spillAll slot index arguments) region.Holds
  | [], _, _, _, _, _, holds => .pure holds
  | ty :: rest, index, _, slot, _, place, holds => by
      rw [Store.spillAll]
      apply (allows_record place rfl (fun _ same => by cases same) ty holds).bind
      rintro ⟨child, store⟩ after grows ⟨isChild, holds⟩
      apply (allows_spill ty isChild holds).bind
      intro store last growsLast holds
      exact allows_spillAll rest (index + 1)
        (region.place_grow place (region.trans grows growsLast)) holds

end

/-- Planting a seed below a place touches only the places on its path. -/
theorem allows_plant {slot : SlotId} (place : region.Place table slot)
    (holds : region.Holds table store) {seed : Seed} (names : ∀ step ∈ seed.path, region.Names step.1) :
    region.Allows table (store.plant slot seed) region.Holds := by
  have path : region.Allows table (seed.path.foldlM
      (fun place step => SlotTable.member place step.1 step.2) (some slot)) region.Has := by
    refine Allows.foldlM ?_ (has_some place)
    intro step member place after _ has
    exact allows_member has (names step member) step.2
  apply path.bind
  intro place after grows has
  exact .pure (has.assign (region.holds_grow holds grows) _)

/-- A value is written to a place of the region. -/
theorem allows_write (writes : region.Writes) (has : region.Has table slot?) {value : Value}
    (plants : region.Plants value.seeds) (holds : region.Holds table store) :
    region.Allows table (store.write slot? value) region.Holds := by
  cases slot? with
  | none => exact .pure holds
  | some slot =>
      have current : region.Allows table get fun after found => found = after :=
        fun _ => ⟨region.refl table, rfl⟩
      apply current.bind
      rintro table _ grows rfl
      apply Allows.of_valid
      intro valid
      have place := region.place_grow (has.place slot rfl) grows
      have written : region.Holds table
          ((store.forget (table.descendants slot)).assign (some slot) value.state) :=
        region.assign _ place (region.forget writes valid place (region.holds_grow holds grows))
      have planted : ∀ {after : SlotTable} {store : Store}, region.Grows table after →
          region.Holds after store →
          region.Allows after (value.seeds.foldlM (Store.plant slot) store) region.Holds := by
        intro after store grows holds
        refine Allows.foldlM ?_ holds
        intro seed member store last growsLast holds
        exact allows_plant (region.place_grow place (region.trans grows growsLast)) holds
          (plants seed member).2
      cases value.ty? with
      | none => exact planted (region.refl table) written
      | some ty =>
          exact (allows_spill ty place written).bind fun store after grows holds =>
            planted grows holds

end Writes

end Region

end NullFlow

/-!
Actions that keep to a region. Whatever code is analyzed, the table of the session becomes no more
than the region allows, the results know places of the region alone, and the analysis stops only if
the caller wants it to stop.
-/

namespace NullFlow

namespace Region

/-- What every part of an analysis keeps. -/
structure Continues (region : Region) (context : Context) (before after : Session) : Prop where
  slots : region.Grows before.slots after.slots
  stopped : after.cancelled = true → before.cancelled = true ∨ context.token.stops = true

/-- In every session of the region the action keeps to the region, and its result fits the table
after it. -/
def Runs {Result : Type} (region : Region) (context : Context) (session : Session)
    (action : Analysis Result) (fits : SlotTable → Result → Prop) : Prop :=
  region.Valid session.slots →
    region.Continues context session (action session).2 ∧ fits (action session).2.slots (action session).1

section Actions

variable {region : Region} {context : Context} {session : Session} {Result Other : Type}
  {fits : SlotTable → Result → Prop} {other : SlotTable → Other → Prop}

theorem Continues.refl (session : Session) : region.Continues context session session :=
  ⟨region.refl session.slots, Or.inl⟩

/-- Actions that keep to the region one after the other keep to it together. -/
theorem Continues.trans {first second third : Session}
    (early : region.Continues context first second)
    (late : region.Continues context second third) : region.Continues context first third := by
  refine ⟨region.trans early.slots late.slots, ?_⟩
  intro stopped
  rcases late.stopped stopped with before | requested
  · exact early.stopped before
  · exact Or.inr requested

namespace Runs

theorem pure {result : Result} (holds : fits session.slots result) :
    region.Runs context session (Pure.pure result) fits := fun _ => ⟨.refl session, holds⟩

/-- An action followed by another keeps to the region if the second does after whatever the first
leaves. -/
theorem bind {first : Analysis Result} {next : Result → Analysis Other}
    (early : region.Runs context session first fits)
    (late : ∀ result after, region.Continues context session after → fits after.slots result →
      region.Runs context after (next result) other) :
    region.Runs context session (first >>= next) other := by
  intro valid
  obtain ⟨continuesFirst, fitsFirst⟩ := early valid
  obtain ⟨continuesRest, fitsRest⟩ := late _ _ continuesFirst fitsFirst
    (region.valid_grow valid continuesFirst.slots)
  exact ⟨continuesFirst.trans continuesRest, fitsRest⟩

theorem map {action : Analysis Result} (change : Result → Other)
    (runs : region.Runs context session action fits)
    (holds : ∀ table result, fits table result → other table (change result)) :
    region.Runs context session (change <$> action) other := fun valid =>
  ⟨(runs valid).1, holds _ _ (runs valid).2⟩

/-- A result that fits more is fit for less. -/
theorem weaken {action : Analysis Result} {weaker : SlotTable → Result → Prop}
    (runs : region.Runs context session action fits)
    (holds : ∀ table result, fits table result → weaker table result) :
    region.Runs context session action weaker := fun valid =>
  ⟨(runs valid).1, holds _ _ (runs valid).2⟩

/-- A loop keeps to the region if every round does, whatever the rounds before it leave. -/
theorem foldlM {Item : Type} {step : Result → Item → Analysis Result} {items : List Item}
    (each : ∀ item ∈ items, ∀ result after, region.Continues context session after →
      fits after.slots result → region.Runs context after (step result item) fits) {start : Result}
    (holds : fits session.slots start) :
    region.Runs context session (items.foldlM step start) fits := by
  induction items generalizing session start with
  | nil => exact .pure holds
  | cons item rest ih =>
      rw [List.foldlM_cons]
      apply (each item List.mem_cons_self start session (.refl session) holds).bind
      intro result after continues holdsAfter
      refine ih ?_ holdsAfter
      intro later member result last continuesLast
      exact each later (List.mem_cons_of_mem _ member) result last (continues.trans continuesLast)

theorem forM {Item : Type} {body : Item → Analysis PUnit} {items : List Item}
    (each : ∀ item ∈ items, ∀ after, region.Continues context session after →
      region.Runs context after (body item) fun _ _ => True) :
    region.Runs context session (items.forM body) fun _ _ => True := by
  induction items generalizing session with
  | nil => exact .pure trivial
  | cons item rest ih =>
      apply (each item List.mem_cons_self session (.refl session)).bind
      intro _ after continues _
      apply ih
      intro later member last continuesLast
      exact each later (List.mem_cons_of_mem _ member) last (continues.trans continuesLast)

/-- What the region allows of a slot table it allows of the session around the table. -/
theorem onSlots {action : StateM SlotTable Result} (allows : region.Allows session.slots action fits) :
    region.Runs context session (Analysis.onSlots action) fits := fun valid =>
  ⟨⟨(allows valid).1, Or.inl⟩, (allows valid).2⟩

theorem slots : region.Runs context session Analysis.slots fun table found => found = table :=
  fun _ => ⟨.refl session, rfl⟩

/-- An action that does not touch slots. -/
theorem silent {action : Analysis Result} (isSilent : Comparison.Silent action) :
    region.Runs context session action fun _ _ => True := by
  intro _
  obtain ⟨sameSlots, sameCancelled⟩ := isSilent session
  refine ⟨⟨?_, ?_⟩, trivial⟩
  · rw [sameSlots]
    exact region.refl session.slots
  · rw [sameCancelled]
    exact Or.inl

/-- A check that may be left out. -/
theorem check {action : Analysis PUnit} {next : PUnit → Analysis Result} (decision : Bool)
    (isSilent : Comparison.Silent action)
    (late : ∀ after, region.Continues context session after →
      region.Runs context after (next ⟨⟩) fits) :
    region.Runs context session (if decision then action >>= next else next ⟨⟩) fits := by
  cases decision with
  | false => exact late session (.refl session)
  | true => exact (silent isSilent).bind fun _ after continues _ => late after continues

end Runs

end Actions

section Kinds

/-- The place is one of the region, and the store is one of the region. -/
structure Knows (region : Region) (table : SlotTable) (slot? : Option SlotId) (store : Store) :
    Prop where
  place : region.Has table slot?
  store : region.Holds table store

/-- The value lies at a place of the region, and writing it names no members but those of the
region. -/
structure ValueFits (region : Region) (table : SlotTable) (result : Value × Store) : Prop where
  known : region.Knows table result.1.slot? result.2
  plants : region.Plants result.1.seeds

def TargetFits (region : Region) (table : SlotTable) (result : Target × Store) : Prop :=
  region.Knows table result.1.slot? result.2

structure BranchesFit (region : Region) (table : SlotTable) (branches : Branches) : Prop where
  whenTrue : region.Holds table branches.whenTrue
  whenFalse : region.Holds table branches.whenFalse

variable {region : Region} {table after : SlotTable} {slot? : Option SlotId} {store : Store}

theorem plants_nil (region : Region) : region.Plants [] := fun _ member => by cases member

/-- A value without a place is known wherever the store is. -/
theorem knows_none (holds : region.Holds table store) : region.Knows table none store :=
  ⟨region.has_none table, holds⟩

/-- The place of a known value may be assigned. -/
theorem Knows.assign (known : region.Knows table slot? store) (state : FlowState) :
    region.Holds table (store.assign slot? state) := known.place.assign known.store state

/-- A known value stays known when the table grows. -/
theorem Knows.grow (known : region.Knows table slot? store) (grows : region.Grows table after) :
    region.Knows after slot? store :=
  ⟨known.place.grow grows, region.holds_grow known.store grows⟩

/-- A value that lies at no place. -/
theorem loose_fits (state : FlowState) (ty? : Option Ty) (holds : region.Holds table store) :
    region.ValueFits table (.loose state ty?, store) :=
  ⟨knows_none holds, region.plants_nil⟩

/-- Wherever the rule is applied to a store of the region, it keeps to the region. -/
def Admits {Result : Type} (region : Region) (context : Context) (rule : Store → Analysis Result)
    (fits : SlotTable → Result → Prop) : Prop :=
  ∀ ⦃session : Session⦄ ⦃store : Store⦄, region.Holds session.slots store →
    region.Runs context session (rule store) fits

/-- The meaning keeps to the region, whatever it is evaluated for. -/
structure Covers (region : Region) (context : Context) (meaning : Meaning) : Prop where
  value : region.Admits context meaning.value region.ValueFits
  branches : region.Admits context meaning.branches region.BranchesFit
  lambda : ∀ analyze ∈ meaning.lambda?, ∀ (delegate? : Option Ty) (session : Session),
    region.Runs context session (analyze delegate?) fun _ _ => True

end Kinds

end Region

end NullFlow
