import NullFlow.Proofs.Store.Relation
import NullFlow.Proofs.Types.Positions
/-!
Marks inside the types that are read of slots, and what a join does to them. A join hides the mark of
a nested slot in one case only: one store knows that the slot is not null, the other one knows nothing
of it, and the slot was declared anew as not null.
-/

namespace NullFlow

/-- The type of the value is marked nullable at the end of the path. -/
def Value.NullableAt (value : Value) (path : TyPath) : Prop :=
  (value.ty?.bind (Ty.at? path)).map Ty.mark = some .nullable

instance (value : Value) (path : TyPath) : Decidable (value.NullableAt path) :=
  inferInstanceAs (Decidable (_ = _))

namespace Value

variable (table : SlotTable) (declared : Ty) (slot : SlotId)

/-- What is read of a nested position is the mark that its slot shows of the declared type there. -/
theorem nullableAt_ofSlot (store : Store) {path : TyPath} (nested : path ≠ []) :
    (ofSlot table store declared (some slot)).NullableAt path ↔
      (declared.at? path).map (Ty.shownMark store (table.inner? path declared slot)) =
        some .nullable := by
  have read : (ofSlot table store declared (some slot)).ty? =
      some ((declared.withState (store.lookup table (some slot))).refine table store slot) := rfl
  have place : table.inner? path (declared.withState (store.lookup table (some slot))) slot =
      table.inner? path declared slot := by
    cases path with
    | nil => rfl
    | cons index rest => cases declared <;> cases index <;> rfl
  rw [NullableAt, read, Option.bind_some, Ty.mark_at?_refine table store nested,
    Ty.at?_withState declared _ nested, place]

end Value

namespace Store

/-- The mark of a position is hidden by a join: the type is nullable there, one store records that
the slot is not null, the other one records nothing, and the slot counts as not null then. -/
structure Hides (table : SlotTable) (slot : SlotId) (position : Ty) (known unknown : Facts) :
    Prop where
  nullable : position.mark = .nullable
  tellsStates : position.tellsStates = true
  recorded : known.get? slot = some .notNull
  unrecorded : unknown.get? slot = none
  redeclared : table.declared slot = .notNull

end Store

namespace Ty

variable (ty : Ty) (slot : SlotId) (facts : Facts)

/-- A position with a record shows the recorded state, if its type tells states. -/
theorem shownMark_recorded {state : FlowState} (recorded : facts.get? slot = some state) :
    shownMark (.reachable facts) (some slot) ty =
      if ty.tellsStates then state.mark else ty.mark := by
  rw [shownMark, observed, show Store.explicit (.reachable facts) (some slot) = some state from
    recorded]
  exact mark_withState ty state

/-- A position without a record shows the mark that its type was declared with. -/
theorem shownMark_unrecorded (unrecorded : facts.get? slot = none) :
    shownMark (.reachable facts) (some slot) ty = ty.mark := by
  rw [shownMark, observed, show Store.explicit (.reachable facts) (some slot) = none from
    unrecorded]

/-- A slot shows a nullable type unless it is known that it is not null. -/
theorem shownMark_eq_nullable : shownMark (.reachable facts) (some slot) ty = .nullable ↔
    if ty.tellsStates then
      match facts.get? slot with
      | some state => state = .maybeNull
      | none => ty.mark = .nullable
    else ty.mark = .nullable := by
  cases recorded : facts.get? slot with
  | none =>
      rw [shownMark_unrecorded ty slot facts recorded]
      exact (ite_self _).symm ▸ Iff.rfl
  | some state =>
      rw [shownMark_recorded ty slot facts recorded]
      cases ty.tellsStates <;> cases state <;> simp [FlowState.mark]

end Ty

/-- The join of two stores shows a slot as nullable wherever one of the stores does, unless it hides
the mark. -/
theorem Store.shownMark_join (table : SlotTable) (slot : SlotId) (position : Ty)
    (first second : Facts) :
    ((position.shownMark (.reachable first) (some slot) = .nullable ∨
        position.shownMark (.reachable second) (some slot) = .nullable) →
      position.shownMark ((reachable first).join table (reachable second)) (some slot) =
        .nullable) ↔
    ¬ Hides table slot position first second ∧ ¬ Hides table slot position second first := by
  have hides (known unknown : Facts) : Hides table slot position known unknown ↔
      position.mark = .nullable ∧ position.tellsStates = true ∧
        known.get? slot = some .notNull ∧ unknown.get? slot = none ∧
        table.declared slot = .notNull :=
    ⟨fun hidden => ⟨hidden.nullable, hidden.tellsStates, hidden.recorded, hidden.unrecorded,
      hidden.redeclared⟩, fun ⟨one, two, three, four, five⟩ => ⟨one, two, three, four, five⟩⟩
  rw [join, Ty.shownMark_eq_nullable, Ty.shownMark_eq_nullable, Ty.shownMark_eq_nullable,
    SortedMap.get?_unionWith, hides, hides]
  cases first.get? slot with
  | none => cases second.get? slot with
    | none => cases position.tellsStates <;> simp [SortedMap.merged]
    | some other => cases position.tellsStates <;> cases other <;> cases table.declared slot <;>
        simp [SortedMap.merged, FlowState.join]
  | some state => cases second.get? slot with
    | none => cases position.tellsStates <;> cases state <;> cases table.declared slot <;>
        simp [SortedMap.merged, FlowState.join]
    | some other => cases position.tellsStates <;> cases state <;> cases other <;>
        simp [SortedMap.merged, FlowState.join]

end NullFlow
