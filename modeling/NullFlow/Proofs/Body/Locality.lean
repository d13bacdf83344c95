import NullFlow.Proofs.Analysis.Narrowing
import NullFlow.Proofs.Analysis.Regions.Meanings
import NullFlow.Proofs.Body.Aliases
import NullFlow.Proofs.Store.Entries
import NullFlow.Proofs.Store.Keys
/-!
Evaluation is local. What the analysis knows of a local that an expression does not mention, and of
everything below it, stays as it is. The one exception are members of a name: an assignment to a
member that has no slot may concern any member of the name, so it gives up all of them.
-/

namespace NullFlow

/-- The slot is that of the local, or it is derived from it. The names are those of the members on
the way to it. -/
inductive SlotTable.Path (table : SlotTable) (id : LocalId) : SlotId → List String → Prop where
  | home {slot : SlotId} : table.key? slot = some (.localVar id) → Path table id slot []
  | member {slot parent : SlotId} {name : String} {names : List String} :
      table.key? slot = some (.member parent name) → Path table id parent names →
      Path table id slot (name :: names)
  | element {slot parent : SlotId} {names : List String} :
      table.key? slot = some (.element parent) → Path table id parent names →
      Path table id slot names
  | typeArgument {slot parent : SlotId} {index : Nat} {names : List String} :
      table.key? slot = some (.typeArgument parent index) → Path table id parent names →
      Path table id slot names

/-- The expression may assign something to a member of the name that has no slot. The receiver of the
member has no slot itself, or its slot does not denote the same object every time, as that of the
elements of an array does not, or the type of the member depends on a receiver that is unknown. -/
def Expr.MayLose (context : Context) (table : SlotTable) (expr : Expr) (name : String) : Prop :=
  ∃ node, expr.Evaluates (.node node) ∧ ∃ receiver member ty? span value,
    node.kind = .assign (.node ⟨.member (some receiver) member, ty?, span⟩) value ∧
      member.name = name ∧ ∃ (session : Session) (store : Store), table.Keeps session.slots ∧
        store.Live ∧
        let base := (receiver.meaning context).value store session
        context.memberType? base.1.1.ty? member = none ∨ ¬base.2.slots.Stable base.1.1.slot?

/-- A variable denotes the same object every time. -/
theorem variable_stable (context : Context) (source : Variable) (ty? : Option Ty) (span : Span)
    {store : Store} (live : store.Live) (session : Session) :
    let base := ((Expr.node ⟨.read source, ty?, span⟩).meaning context).value store session
    base.2.slots.Stable base.1.1.slot? := by
  cases store with
  | unreachable => cases live
  | reachable facts =>
      obtain ⟨slot, isPlace, _, isSlot⟩ := read_value context source ty? span session facts
      refine ⟨slot, isPlace, ?_⟩
      rw [SlotTable.key?_of_get? isSlot]
      rfl

/-- The slot has the same entry and the same state in a later store with a later table. -/
structure Store.Unchanged (store : Store) (table : SlotTable) (slot : SlotId) (later : Store)
    (after : SlotTable) : Prop where
  entry : later.explicit (some slot) = store.explicit (some slot)
  state : later.lookup after (some slot) = store.lookup table (some slot)

/-- The slots at and below the local on whose path no name may be lost. -/
def SlotTable.Kept (table : SlotTable) (id : LocalId) (loses : String → Prop) (slot : SlotId) :
    Prop :=
  ∃ names, table.Path id slot names ∧ ∀ name ∈ names, ¬loses name

namespace SlotTable

variable {initial table : SlotTable} {id : LocalId} {loses : String → Prop} {slot parent : SlotId}

theorem Kept.key? (kept : initial.Kept id loses slot) : ∃ key, initial.key? slot = some key := by
  obtain ⟨names, path, _⟩ := kept
  cases path <;> exact ⟨_, by assumption⟩

/-- A slot that is kept and derived from none is the slot of the variable. -/
theorem Kept.isRoot (kept : initial.Kept id loses slot) {key : SlotKey}
    (found : initial.key? slot = some key) (noParent : key.parent? = none) : key = .localVar id := by
  obtain ⟨names, path, _⟩ := kept
  cases path with
  | home isKey => exact Option.some.inj (found.symm.trans isKey)
  | member isKey _ =>
      obtain rfl := Option.some.inj (found.symm.trans isKey)
      cases noParent
  | element isKey _ =>
      obtain rfl := Option.some.inj (found.symm.trans isKey)
      cases noParent
  | typeArgument isKey _ =>
      obtain rfl := Option.some.inj (found.symm.trans isKey)
      cases noParent

/-- The parent of a slot that is kept is kept. -/
theorem Kept.of_parent (kept : initial.Kept id loses slot) {key : SlotKey}
    (found : initial.key? slot = some key) (isParent : key.parent? = some parent) :
    initial.Kept id loses parent := by
  obtain ⟨names, path, spared⟩ := kept
  cases path with
  | home isKey =>
      obtain rfl := Option.some.inj (found.symm.trans isKey)
      cases isParent
  | member isKey path =>
      obtain rfl := Option.some.inj (found.symm.trans isKey)
      obtain rfl := Option.some.inj isParent
      exact ⟨_, path, fun name member => spared name (List.mem_cons_of_mem _ member)⟩
  | element isKey path =>
      obtain rfl := Option.some.inj (found.symm.trans isKey)
      obtain rfl := Option.some.inj isParent
      exact ⟨_, path, spared⟩
  | typeArgument isKey path =>
      obtain rfl := Option.some.inj (found.symm.trans isKey)
      obtain rfl := Option.some.inj isParent
      exact ⟨_, path, spared⟩

/-- A member that is kept is not lost to an invalidation. -/
theorem Kept.spared (kept : initial.Kept id loses slot) {name : String}
    (found : initial.key? slot = some (.member parent name)) : ¬loses name := by
  obtain ⟨names, path, spared⟩ := kept
  cases path with
  | home isKey => cases found.symm.trans isKey
  | member isKey _ =>
      cases found.symm.trans isKey
      exact spared name List.mem_cons_self
  | element isKey _ => cases found.symm.trans isKey
  | typeArgument isKey _ => cases found.symm.trans isKey

/-- Slots of a larger table have the keys that they had. -/
theorem Kept.same_key (kept : initial.Kept id loses slot) (keeps : initial.Keeps table)
    {key : SlotKey} (found : table.key? slot = some key) : initial.key? slot = some key := by
  obtain ⟨before, isKey⟩ := kept.key?
  rw [isKey, ← keeps.key? isKey, found]

/-- A larger table derives the slots from the same ones. -/
theorem Kept.closed (kept : initial.Kept id loses slot) (keeps : initial.Keeps table)
    (isParent : table.parent? slot = some parent) : initial.Kept id loses parent := by
  obtain ⟨key, found, ofKey⟩ := Option.bind_eq_some_iff.mp isParent
  exact kept.of_parent (kept.same_key keeps found) ofKey

/-- New slots leave alone what is declared of the slots. -/
theorem Kept.declared_intern (kept : initial.Kept id loses slot) (keeps : initial.Keeps table)
    (key : SlotKey) (declared : FlowState) :
    (intern key declared table).2.declared slot = table.declared slot := by
  obtain ⟨before, isKey⟩ := kept.key?
  have old := lt_size_of_key? (keeps.key? isKey)
  cases found : table.get? key with
  | some known => simp only [intern, found]
  | none =>
      refine SlotTable.declared_intern fun isNew => ?_
      rw [intern, found] at isNew
      exact Nat.ne_of_lt old isNew

end SlotTable

namespace Region

/-- The region apart from a local. The slots at and below it keep the entries of a store. -/
def apart (initial : SlotTable) (base : Store) (id : LocalId) (loses : String → Prop) : Region where
  Valid table := initial.Keeps table
  Grows before after := before.Keeps after ∧
    ∀ slot, initial.Kept id loses slot → initial.Keeps before →
      after.declared slot = before.declared slot
  Place _ slot := ¬initial.Kept id loses slot
  Holds _ store := store.Live → ∀ slot, initial.Kept id loses slot →
    store.explicit (some slot) = base.explicit (some slot)
  Reads other := other ≠ id
  Names _ := True
  Writes := True
  Loses := loses
  refl table := ⟨.refl table, fun _ _ _ => rfl⟩
  trans early late := ⟨early.1.trans late.1, fun slot kept keeps =>
    (late.2 slot kept (keeps.trans early.1)).trans (early.2 slot kept keeps)⟩
  valid_grow valid grows := valid.trans grows.1
  place_grow outside _ := outside
  holds_grow holds _ := holds
  root := by
    intro table key declared valid noParent reads
    have keeps := SlotTable.keeps_intern table key declared
    refine ⟨⟨keeps, fun _ kept valid => kept.declared_intern valid key declared⟩, ?_⟩
    intro kept
    have found := kept.same_key (valid.trans keeps) (SlotTable.key?_intern table key declared)
    exact reads id (kept.isRoot found noParent) rfl
  derive := by
    intro table parent key declared valid outside derived _
    have keeps := SlotTable.keeps_intern table key declared
    refine ⟨⟨keeps, fun _ kept valid => kept.declared_intern valid key declared⟩, ?_⟩
    intro kept
    have found := kept.same_key (valid.trans keeps) (SlotTable.key?_intern table key declared)
    exact outside (kept.of_parent found derived)
  redeclare declared outside :=
    ⟨(SlotTable.grows_redeclare _ _ declared).keeps, fun slot kept _ =>
      SlotTable.declared_redeclare (by rintro rfl; exact outside kept) declared⟩
  unreachable _ live := by cases live
  assign := by
    intro table slot store state outside holds live other kept
    have differ : other ≠ slot := fun same => outside (same ▸ kept)
    have liveBefore : store.Live := (Store.isReachable_assign ..).symm.trans live
    rw [Store.explicit_assign liveBefore, if_neg differ]
    exact holds liveBefore other kept
  join other first second live slot kept :=
    Store.explicit_join (fun reachable => first reachable slot kept)
      (fun reachable => second reachable slot kept) live
  forget := by
    intro table slot store _ valid outside holds live other kept
    have notBelow : other ∉ table.descendants slot :=
      SlotTable.not_mem_descendants (fun kept => kept.closed valid) outside kept
    rw [Store.explicit_forget, if_neg notBelow]
    exact holds ((Store.isReachable_forget ..).symm.trans live) other kept
  invalidate := by
    intro table name store lost valid holds live slot kept
    have liveBefore : store.Live := (Comparison.isReachable_invalidate ..).symm.trans live
    have spared : ∀ other ∈ table.membersNamed name, ¬initial.Kept id loses other := by
      intro other member kept
      obtain ⟨parent, found⟩ := SlotTable.mem_membersNamed.mp member
      exact kept.spared (kept.same_key valid found) lost
    rw [Store.explicit_invalidate_other (fun kept => kept.closed valid) spared liveBefore kept]
    exact holds liveBefore slot kept

/-- An expression that does not mention the local keeps apart from it. -/
theorem apart_covers (context : Context) (initial : SlotTable) (base : Store) {expr : Expr}
    {id : LocalId} (unmentioned : ¬expr.Mentions id) :
    (apart initial base id (expr.MayLose context initial)).CoversExpr context expr := by
  apply covered context expr
  · exact ⟨fun node inside source isRead same =>
        unmentioned ⟨node, inside, .inl ⟨source, isRead, same⟩⟩,
      fun node inside target isDeclared same =>
        unmentioned ⟨node, inside, .inr ⟨target, isDeclared, same⟩⟩,
      fun _ _ _ _ => trivial⟩
  · intro node inside target value isAssign
    refine ⟨trivial, ?_⟩
    intro member isMember session store live valid noSlot
    obtain ⟨receiver, ty?, span, rfl⟩ := Expr.memberOf?_eq_some isMember
    have isPlaced := memberTarget_eq context (receiver.part context) member store session
    change (memberTarget context (receiver.part context) member store session).1.1.slot? = none
      at noSlot
    rw [isPlaced] at noSlot
    exact ⟨node, inside, receiver, member, ty?, span, value, isAssign, rfl, session, store, valid,
      live, (memberPlace_slot? context (receiver.part context) member store session).mp noSlot⟩

/-- The slots at and below the local that are kept apart stay as they are. -/
theorem apart_unchanged {context : Context} {session final : Session} {store later : Store}
    {id : LocalId} {loses : String → Prop} {slot : SlotId}
    (continues : (apart session.slots store id loses).Continues context session final)
    (holds : (apart session.slots store id loses).Holds final.slots later) (live : later.Live)
    (kept : session.slots.Kept id loses slot) :
    store.Unchanged session.slots slot later final.slots := by
  have sameEntry := holds live slot kept
  have sameDeclared : final.slots.declared slot = session.slots.declared slot :=
    continues.slots.2 slot kept (.refl session.slots)
  refine ⟨sameEntry, ?_⟩
  rw [Store.lookup_eq_explicit, Store.lookup_eq_explicit, sameEntry, sameDeclared]

end Region

end NullFlow

/-!
What the evaluation of an expression leaves as it is. A local that the expression does not mention
keeps its state, and so does everything below it, as long as no member on the way may be lost. A
member may be lost also where its receiver has a slot: elements of arrays have one, but none of their
members do.
-/

namespace NullFlow

/-- Whatever an expression does, nothing changes for a local that it does not mention, nor for a slot
below it, unless the name of a member on the way to the slot may be lost. This holds of the store
after the evaluation, and of the stores of both outcomes as far as control reaches them. -/
theorem evaluation_local (context : Context) (expr : Expr) (id : LocalId)
    (unmentioned : ¬expr.Mentions id) {session : Session} {store : Store} (live : store.Live)
    {slot : SlotId} {names : List String} (path : session.slots.Path id slot names)
    (spared : ∀ name ∈ names, ¬expr.MayLose context session.slots name) :
    let after := (expr.meaning context).value store session
    let outcomes := (expr.meaning context).branches store session
    store.Unchanged session.slots slot after.1.2 after.2.slots ∧
      ∀ outcome ∈ [outcomes.1.whenTrue, outcomes.1.whenFalse], outcome.Live →
        store.Unchanged session.slots slot outcome outcomes.2.slots := by
  intro after outcomes
  have covers := (Region.apart_covers context session.slots store unmentioned).covers
  have kept : session.slots.Kept id (expr.MayLose context session.slots) slot :=
    ⟨names, path, spared⟩
  have same : store.Live → ∀ slot, session.slots.Kept id (expr.MayLose context session.slots) slot →
      store.explicit (some slot) = store.explicit (some slot) := fun _ _ _ => rfl
  obtain ⟨continues, fits⟩ := @covers.value session store same (.refl session.slots)
  obtain ⟨continuesOutcomes, fitsOutcomes⟩ := @covers.branches session store same (.refl session.slots)
  constructor
  · have liveAfter := ((meaning_decides context expr).value live).answer session
    exact Region.apart_unchanged continues fits.known.store liveAfter kept
  · intro outcome isOutcome liveOutcome
    rcases List.mem_pair.mp isOutcome with rfl | rfl
    · exact Region.apart_unchanged continuesOutcomes fitsOutcomes.whenTrue liveOutcome kept
    · exact Region.apart_unchanged continuesOutcomes fitsOutcomes.whenFalse liveOutcome kept

namespace Body

section Example

/-- Another variable than that of which the field is set. -/
def otherVariable : Expr := .node ⟨.read ⟨⟨"y", plainClass, false⟩, 1⟩, some plainClass, .none⟩

/-- The second slot of the code is a member of the first. -/
theorem withObject_path : withObject.2.slots.Path 0 1 ["F"] := by
  obtain ⟨⟨_, isVariable, isMember⟩, _⟩ := withObject_shows
  exact .member isMember (.home isVariable)

/-- The code knows that the member is not null. -/
theorem withObject_known : withObject.1.2.lookup withObject.2.slots (some 1) = .notNull :=
  withObject_shows.2.2.1

/-- The field of a variable stays not null when null is written to the field of another one. -/
theorem other_write_unchanged :
    let written := setField otherVariable nullLiteral
    let after := (written.meaning plainContext).value withObject.1.2 withObject.2
    (¬written.Mentions 0 ∧ withObject.1.2.Live ∧ withObject.2.slots.Path 0 1 ["F"] ∧
      ∀ name ∈ ["F"], ¬written.MayLose plainContext withObject.2.slots name) ∧
    after.1.2.lookup after.2.slots (some 1) = .notNull := by
  intro written after
  have unmentioned : ¬written.Mentions 0 := by
    simp [written, setField, otherVariable, nullLiteral, Expr.Mentions, Expr.contains_node,
      ExprKind.children, ExprKind.bodyExprs, ExprKind.declared, or_and_right, exists_or]
  have spared : ∀ name ∈ ["F"], ¬written.MayLose plainContext withObject.2.slots name := by
    rintro name _ ⟨node, inside, receiver, member, ty?, span, value, isAssign, _, session, store, _,
      live, lost⟩
    simp only [written, setField, otherVariable, nullLiteral, Expr.evaluates_node, ExprKind.children,
      List.mem_cons, List.not_mem_nil, or_false, exists_eq_or_imp, exists_eq_left, Expr.node.injEq,
      Option.toList, false_and, exists_false] at inside
    rcases inside with rfl | (rfl | rfl) | rfl
    · cases isAssign
      rcases lost with unknown | unstable
      · cases unknown
      · exact unstable (variable_stable plainContext _ _ _ live session)
    · cases isAssign
    · cases isAssign
    · cases isAssign
  refine ⟨⟨unmentioned, withObject_live, withObject_path, spared⟩, ?_⟩
  have unchanged := evaluation_local plainContext written 0 unmentioned withObject_live
    withObject_path spared
  rw [unchanged.1.state, withObject_known]

def plainArray : Ty := .array plainClass .plain

/-- An element of an array that a variable holds. -/
def someElement : Expr :=
  .node ⟨.index (.node ⟨.read ⟨⟨"a", plainArray, false⟩, 1⟩, some plainArray, .none⟩)
    (.node ⟨.literal (.number "0"), some (.value "int" .plain), .none⟩), some plainClass, .none⟩

/-- If the field of a variable is not null, null is written to the field of an element of an array,
and a method of the field of the variable is called. -/
def elementWrite : Body where
  name := "M"
  span? := none
  thisType? := none
  parameters := [0, 1]
  returnType := .void
  locals := #[⟨"x", plainClass, false⟩, ⟨"a", plainArray, false⟩]
  exprs := #[ownRead, ⟨.member (some 0) nullableField, some nullableClass, .none⟩, nullValue,
    ⟨.binary .notEqual 1 2, some (.value "bool" .plain), .none⟩, ⟨.read 1, some plainArray, .none⟩,
    ⟨.literal (.number "0"), some (.value "int" .plain), .none⟩,
    ⟨.index 4 5, some plainClass, .none⟩,
    ⟨.member (some 6) nullableField, some nullableClass, .none⟩, nullValue,
    ⟨.assign 7 8, some nullableClass, .none⟩, ownRead,
    ⟨.member (some 10) nullableField, some nullableClass, .none⟩,
    ⟨.call (some 11) ⟨"Foo", "C.Foo()", some "C", [], [], .void⟩ [], some .void, .none⟩]
  stmts := #[⟨.evaluate 9, .none⟩, ⟨.evaluate 12, .none⟩, ⟨.block [0, 1], .none⟩,
    ⟨.ifElse 3 2 none, .none⟩, ⟨.block [3], .none⟩]
  root := 4

/-- The element has a slot, and the assignment does not mention the variable. Yet afterwards the
field of the variable may be null, and the method call is reported. -/
theorem elementWrite_changes_member :
    let written := setField someElement nullLiteral
    let after := (written.meaning plainContext).value withObject.1.2 withObject.2
    (elementWrite.validate = .ok () ∧ elementWrite.forest.expr? 9 = some written) ∧
    (¬written.Mentions 0 ∧ withObject.1.2.Live ∧ withObject.2.slots.Path 0 1 ["F"] ∧
      ((someElement.meaning plainContext).value withObject.1.2 withObject.2).1.1.slot? = some 3) ∧
    (withObject.1.2.lookup withObject.2.slots (some 1) = .notNull ∧
      after.1.2.lookup after.2.slots (some 1) = .maybeNull) ∧
    ∃ method, elementWrite.method? = some method ∧
      ((method.analyze plainClasses ⟨40, false⟩ false).map fun analysis =>
        analysis.diagnostics.map Diagnostic.kind) = some [.dereference] := by
  intro written after
  have unmentioned : ¬written.Mentions 0 := by
    simp [written, setField, someElement, nullLiteral, Expr.Mentions, Expr.contains_node,
      ExprKind.children, ExprKind.bodyExprs, ExprKind.declared, or_and_right, exists_or]
  have tracked : ((someElement.meaning plainContext).value withObject.1.2
      withObject.2).1.1.slot? = some 3 := by decide +kernel
  have lost : after.1.2.lookup after.2.slots (some 1) = .maybeNull := by
    show (((setField someElement nullLiteral).meaning plainContext).value withObject.1.2
      withObject.2).1.2.lookup (((setField someElement nullLiteral).meaning plainContext).value
        withObject.1.2 withObject.2).2.slots (some 1) = .maybeNull
    decide +kernel
  have checked : (elementWrite.method?.any fun method => decide
      (((method.analyze plainClasses ⟨40, false⟩ false).map fun analysis =>
        analysis.diagnostics.map Diagnostic.kind) = some [.dereference])) = true := by decide +kernel
  obtain ⟨method, found, analyzed⟩ := (Option.any_eq_true _ _).mp checked
  exact ⟨⟨by decide +kernel, rfl⟩, ⟨unmentioned, withObject_live, withObject_path, tracked⟩,
    ⟨withObject_known, lost⟩, method, found, of_decide_eq_true analyzed⟩

end Example

end Body

end NullFlow
