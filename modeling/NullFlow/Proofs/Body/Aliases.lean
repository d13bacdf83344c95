import NullFlow.Proofs.Analysis.Confinement
import NullFlow.Proofs.Body.LeastSolutions
import NullFlow.Proofs.Store.Entries
import NullFlow.Proofs.Store.Keys
/-!
Writes to members of objects without a slot. Such an object may be any of those that the analysis
tracks, so all members of the name are given up. They are given up before the value is evaluated, and
what is found out about them from then on stays, although the write comes after it.
-/

namespace NullFlow

namespace Region

/-- The region of all slots but the members of a name. Of these nothing is known. -/
def lost (name : String) : Region where
  Valid _ := True
  Grows before after :=
    before.Keeps after ∧ after.membersNamed name ⊆ before.membersNamed name
  Place table slot := ∃ key, table.key? slot = some key ∧ key.isMemberNamed name = false
  Holds table store := store.Live →
    ∀ slot ∈ table.membersNamed name, store.explicit (some slot) = some .maybeNull
  Reads _ := True
  Names other := other ≠ name
  Writes := False
  Loses _ := False
  refl table := ⟨.refl table, List.Subset.refl _⟩
  trans early late := ⟨early.1.trans late.1, List.Subset.trans late.2 early.2⟩
  valid_grow _ _ := trivial
  place_grow place grows := by
    obtain ⟨key, found, other⟩ := place
    exact ⟨key, grows.1.key? found, other⟩
  holds_grow holds grows live slot member := holds live slot (grows.2 member)
  root := by
    intro table key declared _ noParent _
    have other : key.isMemberNamed name = false := by
      cases key <;> first | rfl | cases noParent
    exact ⟨⟨SlotTable.keeps_intern table key declared, SlotTable.membersNamed_intern other declared⟩,
      key, SlotTable.key?_intern table key declared, other⟩
  derive := by
    intro table parent key declared _ _ derived members
    have other : key.isMemberNamed name = false := by
      cases key with
      | member owner selected =>
          obtain rfl : owner = parent := Option.some.inj derived
          simpa [SlotKey.isMemberNamed] using (members selected rfl).2
      | localVar _ => rfl
      | this => rfl
      | element _ => rfl
      | typeArgument _ _ => rfl
    exact ⟨⟨SlotTable.keeps_intern table key declared, SlotTable.membersNamed_intern other declared⟩,
      key, SlotTable.key?_intern table key declared, other⟩
  redeclare declared _ :=
    ⟨(SlotTable.grows_redeclare _ _ declared).keeps,
      fun _ member => SlotTable.membersNamed_redeclare _ _ declared name ▸ member⟩
  unreachable _ live := by cases live
  assign := by
    intro table slot store state place holds live other member
    obtain ⟨key, found, notMember⟩ := place
    have differ : other ≠ slot := by
      rintro rfl
      obtain ⟨parent, isMember⟩ := SlotTable.mem_membersNamed.mp member
      obtain rfl := Option.some.inj (found.symm.trans isMember)
      simp [SlotKey.isMemberNamed] at notMember
    have liveBefore : store.Live := (Store.isReachable_assign ..).symm.trans live
    rw [Store.explicit_assign liveBefore, if_neg differ]
    exact holds liveBefore other member
  join other first second live slot member :=
    Store.explicit_join (fun reachable => first reachable slot member)
      (fun reachable => second reachable slot member) live
  forget writes := absurd writes id
  invalidate loses := absurd loses id

/-- What assigns nothing and names no member of the name finds out nothing about them. -/
theorem lost_covers (context : Context) {expr : Expr} {name : String} (noWrite : ¬expr.Assigns)
    (unnamed : ¬expr.NamesMember name) : (lost name).CoversExpr context expr := by
  apply covered context expr
  · exact ⟨fun _ _ _ _ => trivial, fun _ _ _ _ => trivial, fun node inside member named same =>
      unnamed ⟨node, inside, member, named, same⟩⟩
  · exact fun node inside target value isAssign =>
      absurd ⟨node, inside, target, value, isAssign⟩ noWrite

end Region

variable {store : Store} {session : Session}

/-- A write to a place without a slot leaves the store as the value left it. -/
theorem assignRule_untracked (context : Context) (target value : Part)
    (untracked : (target.target store session).1.1.slot? = none) :
    let placed := target.target store session
    let evaluated := value.value placed.1.2 placed.2
    let assigned := assignRule context target value store session
    assigned.1.2 = evaluated.1.2 ∧ assigned.2.slots = evaluated.2.slots := by
  intro placed evaluated assigned
  have recorded (store : Store) (session : Session) :
      Comparison.record placed.1.1 evaluated.1.1 store session = (store, session) := by
    unfold Comparison.record
    rw [show placed.1.1.slot? = none from untracked]
    split
    · exact congrArg (·, session) (Store.assign_none ..)
    · rfl
  have silent := Comparison.Silent.checkTarget context placed.1.1 evaluated.1.1 value.span evaluated.2
  have unfolded : assigned = (do
      Comparison.checkTarget context placed.1.1 evaluated.1.1 value.span
      let store ← Comparison.record placed.1.1 evaluated.1.1 evaluated.1.2
      return (⟨evaluated.1.1.state, evaluated.1.1.ty?, placed.1.1.slot?, []⟩, store) :
        Analysis (Value × Store)) evaluated.2 :=
    congrFun (Comparison.assignRule_eq store) session
  simp only [unfolded, bind, StateT.bind, recorded]
  exact ⟨rfl, silent.1⟩

/-- Whatever the receiver does to the slot table, every slot stays derived from an older one. -/
theorem target_rooted (context : Context) (target : Expr) (store : Store)
    (rooted : session.slots.Rooted) :
    ((target.meaning context).target store session).2.slots.Rooted := by
  have covers : Region.whole.onTables.CoversExpr context target :=
    Region.covered_onTables context target
      ⟨fun _ _ _ _ => trivial, fun _ _ _ _ => trivial, fun _ _ _ _ => trivial⟩
  have admits := covers.target fun _ _ _ _ _ _ _ => trivial
  have runs : Region.whole.onTables.Runs context session ((target.meaning context).target store) _ :=
    admits (trivial : Region.whole.onTables.Holds session.slots store)
  have evolves : session.slots.Evolves _ := (runs trivial).1.slots
  exact evolves.grows.rooted rooted

/-- When a member is found to have no slot, nothing is known of any member of its name. -/
theorem target_invalidates (context : Context) (receiver : Expr) (member : Member) (ty? : Option Ty)
    (span : Span) (rooted : session.slots.Rooted) (live : store.Live) :
    let placed := ((Expr.node ⟨.member (some receiver) member, ty?, span⟩).meaning context).target
      store session
    placed.1.1.slot? = none → ∀ slot ∈ placed.2.slots.membersNamed member.name,
      placed.1.2.explicit (some slot) = some .maybeNull := by
  intro placed noSlot slot named
  have isPlaced : placed = _ := Region.memberTarget_eq context (receiver.part context) member store
    session
  have rootedAfter : placed.2.slots.Rooted := target_rooted context _ store rooted
  have liveAfter : placed.1.2.Live := ((meaning_decides context _).target live).answer session
  rw [isPlaced] at noSlot rootedAfter liveAfter named ⊢
  rw [noSlot] at liveAfter ⊢
  exact Store.explicit_invalidate rootedAfter
    ((Comparison.isReachable_invalidate ..).symm.trans liveAfter) named

/-- A value that assigns nothing and names no member of the name leaves them unknown. -/
theorem value_keeps_unknown (context : Context) {value : Expr} {name : String}
    (noWrite : ¬value.Assigns) (unnamed : ¬value.NamesMember name) (live : store.Live)
    (unknown : ∀ slot ∈ session.slots.membersNamed name,
      store.explicit (some slot) = some .maybeNull) :
    let evaluated := (value.meaning context).value store session
    ∀ slot ∈ evaluated.2.slots.membersNamed name,
      evaluated.1.2.explicit (some slot) = some .maybeNull := by
  intro evaluated slot named
  have covers := (Region.lost_covers context noWrite unnamed).covers.value
  have kept : (Region.lost name).Runs context session ((value.meaning context).value store) _ :=
    covers fun _ => unknown
  have liveAfter : evaluated.1.2.Live := ((meaning_decides context value).value live).answer session
  exact (kept trivial).2.known.store liveAfter slot named

end NullFlow

/-!
Writes through objects that may be aliases of others. All members of the name are given up before
the value is evaluated. A value that finds out something about one of them therefore makes the
analysis miss that the write may concern it.
-/

namespace NullFlow

/-- A value is assigned to a member of an object that has no slot. When the place is found, all
members of the name may be null. The write itself changes nothing, so what is known of them in the
end is what the evaluation of the value left. If the value assigns nothing and names no such member,
they may still all be null. -/
theorem untracked_write_invalidates (context : Context) (receiver value : Expr) (member : Member)
    (targetTy? ty? : Option Ty) (targetSpan span : Span) {store : Store} {session : Session}
    (rooted : session.slots.Rooted) (live : store.Live)
    (untracked : ((receiver.meaning context).value store session).1.1.slot? = none) :
    let target : Expr := .node ⟨.member (some receiver) member, targetTy?, targetSpan⟩
    let placed := (target.meaning context).target store session
    let evaluated := (value.meaning context).value placed.1.2 placed.2
    let assigned := ((Expr.node ⟨.assign target value, ty?, span⟩).meaning context).value store
      session
    (∀ slot ∈ placed.2.slots.membersNamed member.name,
      placed.1.2.lookup placed.2.slots (some slot) = .maybeNull) ∧
    (assigned.1.2 = evaluated.1.2 ∧ assigned.2.slots = evaluated.2.slots) ∧
    (¬value.Assigns → ¬value.NamesMember member.name →
      ∀ slot ∈ assigned.2.slots.membersNamed member.name,
        assigned.1.2.lookup assigned.2.slots (some slot) = .maybeNull) := by
  intro target placed evaluated assigned
  have unstable : ¬((receiver.meaning context).value store session).2.slots.Stable
      ((receiver.meaning context).value store session).1.1.slot? := by
    rintro ⟨slot, isSlot, _⟩
    cases untracked.symm.trans isSlot
  have notPlaced : placed.1.1.slot? = none := by
    rw [show placed = _ from Region.memberTarget_eq context (receiver.part context) member store
      session]
    exact (Region.memberPlace_slot? context (receiver.part context) member store session).mpr
      (.inr unstable)
  have invalidated := target_invalidates context receiver member targetTy? targetSpan rooted live
    notPlaced
  have unknown {table : SlotTable} {store : Store} {slot : SlotId}
      (entry : store.explicit (some slot) = some .maybeNull) :
      store.lookup table (some slot) = .maybeNull := by
    rw [Store.lookup_eq_explicit, entry, Option.getD_some]
  have sameAssigned : assigned.1.2 = evaluated.1.2 ∧ assigned.2.slots = evaluated.2.slots := by
    have written := assignRule_untracked context (target.part context) (value.part context) notPlaced
    cases store with
    | unreachable => cases live
    | reachable facts => exact written
  refine ⟨fun slot named => unknown (invalidated slot named), sameAssigned, ?_⟩
  intro noWrite unnamed slot named
  obtain ⟨sameStore, sameSlots⟩ := sameAssigned
  rw [sameSlots] at named ⊢
  rw [sameStore]
  have livePlaced : placed.1.2.Live := ((meaning_decides context target).target live).answer session
  exact unknown (value_keeps_unknown context noWrite unnamed livePlaced invalidated slot named)

namespace Body

section Example

/-- A member that may be null. -/
def nullableField : Member := ⟨"F", some "C", nullableClass⟩

def ownVariable : Expr := .node ⟨.read ⟨⟨"x", plainClass, false⟩, 0⟩, some plainClass, .none⟩

def nullLiteral : Expr := .node ⟨.literal .null, some (.null .plain), .none⟩

/-- An object that a call yields. It has no slot, and nobody knows where it lies. -/
def someObject : Expr :=
  .node ⟨.call none ⟨"Foo", "Foo()", none, [], [], plainClass⟩ [], some plainClass, .none⟩

/-- Sets the field of an object. -/
def setField (object value : Expr) : Expr :=
  .node ⟨.assign (.node ⟨.member (some object) nullableField, some nullableClass, .none⟩) value,
    some nullableClass, .none⟩

def plainContext : Context := ⟨plainClasses, "M", none, ⟨40, false⟩, false⟩

/-- The session and the store after the field of a variable is set to an object. -/
def withObject : (Value × Store) × Session :=
  ((setField ownVariable someObject).meaning plainContext).value Store.entry
    ⟨.empty, .start false, [], false, 0⟩

/-- The table has the slot of the variable and that of the field, which is not null. -/
theorem withObject_shows :
    (withObject.1.2.isReachable = true ∧ withObject.2.slots.key? 0 = some (.localVar 0) ∧
      withObject.2.slots.key? 1 = some (.member 0 "F")) ∧
    withObject.2.slots.membersNamed "F" = [1] ∧
    withObject.1.2.lookup withObject.2.slots (some 1) = .notNull ∧
    ((someObject.meaning plainContext).value withObject.1.2 withObject.2).1.1.slot? = none := by
  decide +kernel

/-- The code has given its first variable an object, and control goes on. -/
theorem withObject_live : withObject.1.2.Live := withObject_shows.1.1

/-- The field of a variable is not null until null is written to the field of another object. -/
theorem null_write_invalidates :
    let after := ((setField someObject nullLiteral).meaning plainContext).value withObject.1.2
      withObject.2
    (withObject.2.slots.membersNamed "F" = [1] ∧
      withObject.1.2.lookup withObject.2.slots (some 1) = .notNull) ∧
    (withObject.2.slots.Rooted ∧ withObject.1.2.Live ∧
      ((someObject.meaning plainContext).value withObject.1.2 withObject.2).1.1.slot? = none) ∧
    ∀ slot ∈ after.2.slots.membersNamed "F",
      after.1.2.lookup after.2.slots (some slot) = .maybeNull := by
  have rooted : withObject.2.slots.Rooted :=
    ((meaning_confined plainContext _).value (Store.within_entry _)).grows.slots.rooted
      SlotTable.rooted_empty
  obtain ⟨_, members, known, untracked⟩ := withObject_shows
  have noWrite : ¬nullLiteral.Assigns := by
    simp [Expr.Assigns, nullLiteral, Expr.evaluates_node, ExprKind.children]
  have unnamed : ¬nullLiteral.NamesMember "F" := by
    simp [Expr.NamesMember, nullLiteral, Expr.contains_node, ExprKind.children, ExprKind.bodyExprs,
      ExprKind.members]
  have invalidated := untracked_write_invalidates plainContext someObject nullLiteral nullableField
    (some nullableClass) (some nullableClass) .none .none rooted withObject_live untracked
  exact ⟨⟨members, known⟩, ⟨rooted, withObject_live, untracked⟩,
    invalidated.2.2 noWrite unnamed⟩

/-- Assigns what a call yields to the field of the object that another call yields. The argument of
the former sets the field of the parameter to an object, and then a method of that field is called. -/
def lateWrite : Body where
  name := "M"
  span? := none
  thisType? := none
  parameters := [0]
  returnType := .void
  locals := #[⟨"x", plainClass, false⟩]
  exprs := #[freshCall, ⟨.member (some 0) nullableField, some nullableClass, .none⟩, ownRead,
    ⟨.member (some 2) nullableField, some nullableClass, .none⟩, freshCall,
    ⟨.assign 3 4, some nullableClass, .none⟩,
    ⟨.call none ⟨"Take", "Take(C)", none, [], [⟨"value", plainClass⟩], nullableClass⟩ [⟨5, none⟩],
      some nullableClass, .none⟩,
    ⟨.assign 1 6, some nullableClass, .none⟩, ownRead,
    ⟨.member (some 8) nullableField, some nullableClass, .none⟩,
    ⟨.call (some 9) ⟨"Foo", "C.Foo()", some "C", [], [], .void⟩ [], some .void, .none⟩]
  stmts := #[⟨.evaluate 7, .none⟩, ⟨.evaluate 10, .none⟩, ⟨.block [0, 1], .none⟩]
  root := 2

/-- The receiver has no slot, yet after the assignment the field of the parameter is taken to be not
null, and the method call is not reported. -/
theorem lateWrite_hides_null :
    lateWrite.validate = .ok () ∧ ∃ method receiver written,
      lateWrite.method? = some method ∧ lateWrite.forest.expr? 0 = some receiver ∧
      lateWrite.forest.expr? 7 = some written ∧
      let context := method.context plainClasses ⟨40, false⟩ false
      let session := method.session ⟨40, false⟩
      let base := (receiver.meaning context).value Store.entry session
      let after := (written.meaning context).value Store.entry session
      base.1.1.slot? = none ∧ after.2.slots.membersNamed "F" = [1] ∧
        after.1.2.lookup after.2.slots (some 1) = .notNull ∧
        method.analyze plainClasses ⟨40, false⟩ false = some ⟨[], none, 2, true⟩ := by
  have checked : (lateWrite.method?.any fun method => (lateWrite.forest.expr? 0).any fun receiver =>
      (lateWrite.forest.expr? 7).any fun written =>
        let context := method.context plainClasses ⟨40, false⟩ false
        let session := method.session ⟨40, false⟩
        let base := (receiver.meaning context).value Store.entry session
        let after := (written.meaning context).value Store.entry session
        decide (base.1.1.slot? = none) && decide (after.2.slots.membersNamed "F" = [1]) &&
          decide (after.1.2.lookup after.2.slots (some 1) = .notNull) &&
          decide (method.analyze plainClasses ⟨40, false⟩ false = some ⟨[], none, 2, true⟩)) =
        true := by
    decide +kernel
  obtain ⟨method, found, checked⟩ := (Option.any_eq_true _ _).mp checked
  obtain ⟨receiver, isReceiver, checked⟩ := (Option.any_eq_true _ _).mp checked
  obtain ⟨written, isWritten, checked⟩ := (Option.any_eq_true _ _).mp checked
  simp only [Bool.and_eq_true, decide_eq_true_eq] at checked
  obtain ⟨⟨⟨untracked, named⟩, assumed⟩, analyzed⟩ := checked
  exact ⟨by decide +kernel, method, receiver, written, found, isReceiver, isWritten, untracked, named,
    assumed, analyzed⟩

end Example

end Body

end NullFlow
