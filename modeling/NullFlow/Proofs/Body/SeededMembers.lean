import NullFlow.Proofs.Analysis.Initializers
/-!
Objects that are assigned to a variable together with their initializers. The members that the
initializers give values have the states of these values afterwards, whatever the nesting, and nothing
is known of the other members of the variable any more.
-/

namespace NullFlow

/-- The store knows of every member that an entry of an initializer is for what the value of the
entry has been, in the order of the entries. It knows nothing of the other members of the slot. -/
structure Store.KnowsMembers (context : Context) (leaves : List (Leaf Expr)) (start : Store × Session)
    (slot : SlotId) (store : Store) (table : SlotTable) : Prop where
  seeded : ∀ early leaf late, leaves = early ++ leaf :: late →
    let parts := early.map (Leaf.map (Expr.part context))
    let reached := evaluateLeaves context parts start.1 start.2
    let value := (leaf.value.meaning context).value reached.1.2 reached.2
    ∃ place, table.trace leaf.steps slot = some place ∧
      store.lookup table (some place) = value.1.1.state
  forgotten : ∀ name place other, table.get? (.member slot name) = some place →
    table.Spans place other → (∀ leaf ∈ leaves, table.trace leaf.steps slot ≠ some other) →
      store.explicit (some other) = none

section Creation

variable (context : Context) (constructor? : Option Signature) (arguments : List (Argument Expr))
  (initializers : List (Initializer Expr)) (ty? : Option Ty) (span : Span)

/-- The store and the session in which the first value of the initializer is evaluated. -/
def constructed (store : Store) (session : Session) : Store × Session :=
  construct context ty? constructor? (delayArguments (Meaning.ofNode context) arguments) store session

def creation : Expr := .node ⟨.create constructor? arguments initializers, ty?, span⟩

/-- A new object is not null. Its seeds are those of the values in the initializer. -/
theorem creation_value {store : Store} (live : store.Live) (session : Session) :
    let start := constructed context constructor? arguments ty? store session
    let parts := (leavesOf context ty? [] initializers).map (Leaf.map (Expr.part context))
    let seeded := evaluateLeaves context parts start.1 start.2
    ((creation constructor? arguments initializers ty? span).meaning context).value store session =
      ((⟨.notNull, ty?.map (Ty.withState .notNull), none, seeded.1.1⟩, seeded.1.2), seeded.2) := by
  intro start parts seeded
  cases store with
  | unreachable => cases live
  | reachable facts =>
      have delayed : leavesOf context ty? []
          (delayInitializers (Meaning.ofNode context) initializers) = parts := by
        rw [delayInitializers_eq_map]
        exact leavesOf_map context (Expr.part context) initializers ty? []
      have evaluated := fun store => seedMembers_eq context
        (delayInitializers (Meaning.ofNode context) initializers) ty? [] store
      rw [delayed] at evaluated
      change createRule context ty? constructor? (delayArguments (Meaning.ofNode context) arguments)
        (delayInitializers (Meaning.ofNode context) initializers) (.reachable facts) session = _
      unfold createRule
      simp only [evaluated]
      rfl

section Writing

variable {context constructor? arguments initializers ty? span} {session : Session} {store : Store}
  {table : SlotTable} {id : LocalId} {slot : SlotId}

/-- The seeds lead where the leaves lead. -/
theorem creation_seeds (live : store.Live) (session : Session) :
    let value := ((creation constructor? arguments initializers ty? span).meaning context).value store
      session
    value.1.1.seeds.map Seed.steps = (leavesOf context ty? [] initializers).map Leaf.steps := by
  intro value
  have isValue : value = _ := creation_value context constructor? arguments initializers ty? span
    live session
  rw [isValue]
  exact (steps_of_seeds ..).trans List.map_map

/-- A new object that is written to the slot of a variable leaves known what its initializer says of
the members. -/
theorem written_creation_knows (distinct : DistinctNames initializers)
    (rooted : session.slots.Rooted) (live : store.Live) (within : store.Within session.slots) :
    let evaluated := ((creation constructor? arguments initializers ty? span).meaning context).value
      store session
    evaluated.2.slots.Grows table → table.get? (.localVar id) = some slot →
      let after := evaluated.1.2.write (some slot) evaluated.1.1 table
      after.2.get? (.localVar id) = some slot ∧
        after.1.KnowsMembers context (leavesOf context ty? [] initializers)
          (constructed context constructor? arguments ty? store session) slot after.2 := by
  intro evaluated grows isSlot after
  let expr := creation constructor? arguments initializers ty? span
  let start := constructed context constructor? arguments ty? store session
  let parts := (leavesOf context ty? [] initializers).map (Leaf.map (Expr.part context))
  have isValue : evaluated = _ := creation_value context constructor? arguments initializers ty? span
    live session
  have confined := (meaning_confined context expr).value within
  have rootedTable : table.Rooted := grows.rooted (confined.grows.slots.rooted rooted)
  have withinTable : evaluated.1.2.Within table := confined.fits.store.grow grows
  have liveAfter : evaluated.1.2.Live := ((meaning_decides context expr).value live).answer session
  have isKey := SlotTable.key?_of_get? isSlot
  have inside : slot < table.size := SlotTable.lt_size_of_key? isKey
  have stable : table.Stable (some slot) := ⟨slot, rfl, congrArg (Option.any SlotKey.isStable) isKey⟩
  have steps : evaluated.1.1.seeds.map Seed.steps = _ := creation_seeds live session
  have keeps : table.Keeps after.2 := Store.write_keeps (some slot) evaluated.1.1 evaluated.1.2 table
  refine ⟨keeps.get? isSlot, ?_, ?_⟩
  · have differ : (evaluated.1.1.seeds.map Seed.steps).Nodup := by
      rw [steps]
      exact List.pairwise_map.mpr (leaves_differ context distinct ty? [])
    intro early leaf late split earlyParts reached value
    have isSeed : ⟨leaf.path, value.1.1.state⟩ ∈ evaluated.1.1.seeds := by
      have isPart := seed_of_leaf context earlyParts (leaf.map (Expr.part context))
        (late.map (Leaf.map (Expr.part context))) start.1 start.2
      rw [isValue, split, List.map_append, List.map_cons]
      exact isPart
    obtain ⟨place, traced, recorded⟩ := Store.explicit_write_seed rootedTable inside liveAfter stable
      evaluated.1.1 (List.pairwise_map.mp differ) _ isSeed
    refine ⟨place, traced, ?_⟩
    rw [Store.lookup_eq_explicit, recorded]
    rfl
  · intro name place other isMember spans unseeded
    refine Store.explicit_write_member rootedTable inside liveAfter withinTable evaluated.1.1 isMember
      spans ?_
    rintro ⟨seed, member, traced⟩
    have isLeaf : seed.steps ∈ (leavesOf context ty? [] initializers).map Leaf.steps :=
      steps ▸ List.mem_map_of_mem member
    obtain ⟨leaf, inLeaves, sameSteps⟩ := List.mem_map.mp isLeaf
    exact unseeded leaf inLeaves (sameSteps ▸ traced)

end Writing

end Creation

/-- The slot of a variable grows the table. -/
theorem SlotTable.grows_variable (id : LocalId) (declared : FlowState) (table : SlotTable) :
    table.Grows (SlotTable.intern (.localVar id) declared table).2 :=
  SlotTable.grows_intern declared fun _ isParent => by cases isParent

section Assignments

variable (context : Context) (target : Variable) {store : Store} {session : Session}

/-- A declaration writes the value to the slot of the variable. -/
theorem declare_writes (meaning : Meaning) (live : (meaning.value store session).1.2.Live) :
    let evaluated := meaning.value store session
    let made := SlotTable.intern (.localVar target.id) target.ty.declaredState evaluated.2.slots
    let after := evaluated.1.2.write (some made.1) evaluated.1.1 made.2
    let declared := Step.run context (.simple (.declare target (some meaning))) store session
    declared.1 = after.1 ∧ declared.2.slots = after.2 := by
  rcases isValue : meaning.value store session with ⟨⟨value, _ | facts⟩, later⟩
  · rw [isValue] at live
    cases live
  · change (target.declare context meaning store session).1 = _ ∧
      (target.declare context meaning store session).2.slots = _
    have silent := Comparison.Silent.checkConversion context value target.ty meaning.span
      .assignment later
    simp only [Variable.declare, bind, StateT.bind, isValue]
    cases target.implicit with
    | true => exact ⟨rfl, rfl⟩
    | false =>
        rw [← silent.1]
        exact ⟨rfl, rfl⟩

/-- An assignment to a variable writes the value to the slot of the variable. -/
theorem assign_writes (value : Expr) (readTy? ty? : Option Ty) (readSpan span : Span)
    (live : store.Live) :
    let placed := variableTarget target store session
    let evaluated := (value.meaning context).value store placed.2
    let after := evaluated.1.2.write placed.1.1.slot? evaluated.1.1 evaluated.2.slots
    let read : Expr := .node ⟨.read target, readTy?, readSpan⟩
    let assigned := ((Expr.node ⟨.assign read value, ty?, span⟩).meaning context).value store session
    assigned.1.2 = after.1 ∧ assigned.2.slots = after.2 := by
  intro placed evaluated after read assigned
  have silent := Comparison.Silent.checkTarget context placed.1.1 evaluated.1.1
    (value.meaning context).span evaluated.2
  have isRule :
      assigned = assignRule context (read.part context) (value.part context) store session := by
    cases store with
    | unreachable => cases live
    | reachable facts => rfl
  have unfolded : assigned = (do
      Comparison.checkTarget context placed.1.1 evaluated.1.1 (value.meaning context).span
      let store ← Analysis.onSlots (evaluated.1.2.write placed.1.1.slot? evaluated.1.1)
      return (⟨evaluated.1.1.state, evaluated.1.1.ty?, placed.1.1.slot?, []⟩, store) :
        Analysis (Value × Store)) evaluated.2 :=
    isRule.trans (congrFun (Comparison.assignRule_eq store) session)
  simp only [unfolded, bind, StateT.bind, after]
  rw [← silent.1]
  exact ⟨rfl, rfl⟩

end Assignments

/-- The values in the initializer of an object are evaluated in their order after the arguments of the
constructor. When the object is assigned to a variable, where the variable is declared or later, and no
list of entries names a member twice, every member that a value is given to has a slot afterwards, and
its state is that of the value. Nothing is known of the other members of the variable. An assignment
finds the slot of the variable before it evaluates the object. -/
theorem initializers_seed_members (context : Context) (target : Variable)
    (constructor? : Option Signature) (arguments : List (Argument Expr))
    (initializers : List (Initializer Expr)) (distinct : DistinctNames initializers)
    (ty? readTy? assignTy? : Option Ty) (span readSpan assignSpan : Span) {session : Session}
    (rooted : session.slots.Rooted) {store : Store} (live : store.Live)
    (within : store.Within session.slots) :
    let object := creation constructor? arguments initializers ty? span
    let leaves := leavesOf context ty? [] initializers
    let declared := Step.run context (.simple (.declare target (some (object.meaning context)))) store
      session
    let placed := variableTarget target store session
    let read : Expr := .node ⟨.read target, readTy?, readSpan⟩
    let assigned := ((Expr.node ⟨.assign read object, assignTy?, assignSpan⟩).meaning context).value
      store session
    (∀ session, let start := constructed context constructor? arguments ty? store session
      let parts := leaves.map (Leaf.map (Expr.part context))
      let seeded := evaluateLeaves context parts start.1 start.2
      (object.meaning context).value store session =
        ((⟨.notNull, ty?.map (Ty.withState .notNull), none, seeded.1.1⟩, seeded.1.2), seeded.2)) ∧
    (∃ slot, declared.2.slots.get? (.localVar target.id) = some slot ∧
      declared.1.KnowsMembers context leaves
        (constructed context constructor? arguments ty? store session) slot declared.2.slots) ∧
    (∃ slot, assigned.2.slots.get? (.localVar target.id) = some slot ∧
      assigned.1.2.KnowsMembers context leaves
        (constructed context constructor? arguments ty? store placed.2) slot assigned.2.slots) := by
  intro object leaves declared placed read assigned
  refine ⟨creation_value context constructor? arguments initializers ty? span live, ?_, ?_⟩
  · let evaluated := (object.meaning context).value store session
    let made := SlotTable.intern (.localVar target.id) target.ty.declaredState evaluated.2.slots
    let after := evaluated.1.2.write (some made.1) evaluated.1.1 made.2
    have liveAfter : evaluated.1.2.Live := ((meaning_decides context object).value live).answer session
    have grows : evaluated.2.slots.Grows made.2 :=
      SlotTable.grows_variable target.id target.ty.declaredState _
    obtain ⟨sameStore, sameSlots⟩ : declared.1 = after.1 ∧ declared.2.slots = after.2 :=
      declare_writes context target (object.meaning context) liveAfter
    refine ⟨made.1, ?_⟩
    rw [sameStore, sameSlots]
    exact written_creation_knows distinct rooted live within grows (SlotTable.get?_intern ..)
  · let evaluated := (object.meaning context).value store placed.2
    let made := SlotTable.intern (.localVar target.id) target.ty.declaredState session.slots
    let after := evaluated.1.2.write (some made.1) evaluated.1.1 evaluated.2.slots
    have grows : session.slots.Grows made.2 :=
      SlotTable.grows_variable target.id target.ty.declaredState _
    have isSlot : made.2.get? (.localVar target.id) = some made.1 := SlotTable.get?_intern ..
    have rootedPlaced : placed.2.slots.Rooted := grows.rooted rooted
    have withinPlaced : store.Within placed.2.slots := within.grow grows
    have keeps : made.2.Keeps evaluated.2.slots :=
      ((meaning_confined context object).value withinPlaced).grows.slots.keeps
    obtain ⟨sameStore, sameSlots⟩ : assigned.1.2 = after.1 ∧ assigned.2.slots = after.2 :=
      assign_writes context target object readTy? assignTy? readSpan assignSpan live
    refine ⟨made.1, ?_⟩
    rw [sameStore, sameSlots]
    exact written_creation_knows distinct rootedPlaced live withinPlaced (.refl _)
      (keeps.get? isSlot)

section Example

/-- A field that the initializer sets to null inside the object in another field. -/
def nestedEntries : List (Initializer Expr) :=
  [.value ⟨"F", none, .named "C" [] .nullable⟩ (.node ⟨.this, none, .none⟩),
    .nested ⟨"G", none, .named "C" [] .plain⟩
      [.value ⟨"F", none, .named "C" [] .nullable⟩ (.node ⟨.literal .null, none, .none⟩)]]

/-- The outer field is not null afterwards, and the inner one may be null. -/
theorem nested_initializer_known :
    let context : Context := ⟨.ofList [], "M", none, ⟨40, false⟩, false⟩
    let target : Variable := ⟨⟨"x", .named "C" [] .plain, false⟩, 0⟩
    let session : Session := ⟨.empty, .start false, [], false, 0⟩
    let object := creation none [] nestedEntries none .none
    (DistinctNames nestedEntries ∧ session.slots.Rooted ∧ Store.entry.Live ∧
      Store.entry.Within session.slots) ∧
    let declared := Step.run context (.simple (.declare target (some (object.meaning context))))
      Store.entry session
    ∃ slot outer inner, declared.2.slots.get? (.localVar 0) = some slot ∧
      declared.2.slots.trace [.member "F"] slot = some outer ∧
      declared.1.lookup declared.2.slots (some outer) = .notNull ∧
      declared.2.slots.trace [.member "G", .member "F"] slot = some inner ∧
      declared.1.lookup declared.2.slots (some inner) = .maybeNull := by
  intro context target session object
  have distinct : DistinctNames nestedEntries := by
    simp [nestedEntries, DistinctNames, Initializer.name]
  refine ⟨⟨distinct, SlotTable.rooted_empty, rfl, Store.within_entry _⟩, ?_⟩
  intro declared
  have live : Store.entry.Live := rfl
  have within : Store.entry.Within session.slots := Store.within_entry _
  obtain ⟨-, ⟨slot, isSlot, knows⟩, -⟩ := initializers_seed_members context target none []
    nestedEntries distinct none none none .none .none .none SlotTable.rooted_empty live within
  have leaves : leavesOf context none [] nestedEntries =
      [⟨[("F", .maybeNull)], some (.named "C" [] .nullable), .node ⟨.this, none, .none⟩⟩,
        ⟨[("G", .notNull), ("F", .maybeNull)], some (.named "C" [] .nullable),
          .node ⟨.literal .null, none, .none⟩⟩] := by
    simp only [nestedEntries, leavesOf]
    rfl
  obtain ⟨outer, toOuter, outerKnown⟩ := knows.seeded [] _ _ leaves
  obtain ⟨inner, toInner, innerKnown⟩ := knows.seeded [_] _ [] leaves
  exact ⟨slot, outer, inner, isSlot, toOuter, outerKnown, toInner, innerKnown⟩

end Example

end NullFlow
