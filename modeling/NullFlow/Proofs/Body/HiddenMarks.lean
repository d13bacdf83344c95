import NullFlow.Proofs.Analysis.NestedMarks
import NullFlow.Proofs.Body.Solutions
/-!
Type arguments and array elements where control joins. What one side knows to be nullable stays
nullable in the join, unless a slot was declared anew in between: a side that wrote nothing falls back
on the declaration of the other side.
-/

namespace NullFlow

/-- Whatever is nullable inside the type that is read of a slot in one of two reachable stores is
nullable in the type that is read in their join, if and only if the join hides no mark: no nested
slot of which the type is nullable counts as not null where one store knows nothing of it and the
other one knows that it is not null. -/
theorem join_keeps_nullable_iff (table : SlotTable) (declared : Ty) (slot : SlotId)
    (first second : Facts) :
    (∀ path : TyPath, path ≠ [] →
      (Value.ofSlot table (.reachable first) declared (some slot)).NullableAt path ∨
        (Value.ofSlot table (.reachable second) declared (some slot)).NullableAt path →
      (Value.ofSlot table ((Store.reachable first).join table (.reachable second)) declared
        (some slot)).NullableAt path) ↔
    ∀ path : TyPath, path ≠ [] → ∀ child position, table.inner? path declared slot = some child →
      declared.at? path = some position →
      ¬ Store.Hides table child position first second ∧
        ¬ Store.Hides table child position second first := by
  refine forall_congr' fun path => forall_congr' fun nested => ?_
  rw [Value.nullableAt_ofSlot table declared slot _ nested,
    Value.nullableAt_ofSlot table declared slot _ nested,
    Value.nullableAt_ofSlot table declared slot _ nested]
  cases declared.at? path with
  | none => simp
  | some position =>
      cases table.inner? path declared slot with
      | none => simp [Ty.shownMark]
      | some child =>
          have kept := Store.shownMark_join table child position first second
          simpa using kept

namespace Body

section Example

/-- A branch that assigns a variable of type `C<object>` to one of type `C<object?>`. After it the
latter is assigned to a third variable, of the type of the former. -/
def branchWrite : Body where
  name := "M"
  span? := none
  thisType? := none
  parameters := [0, 1, 2]
  returnType := .void
  locals := #[⟨"x", boxed .nullable, false⟩, ⟨"y", boxed .plain, false⟩, ⟨"z", boxed .plain, false⟩]
  exprs := #[⟨.read 0, some (boxed .nullable), .none⟩, ⟨.read 1, some (boxed .plain), .none⟩,
    ⟨.assign 0 1, some (boxed .nullable), .none⟩, ⟨.bad [], some (.value "bool" .plain), .none⟩,
    ⟨.read 2, some (boxed .plain), .none⟩, ⟨.assign 4 0, some (boxed .plain), .none⟩]
  stmts := #[⟨.evaluate 2, .none⟩, ⟨.ifElse 3 0 none, .none⟩, ⟨.evaluate 5, .none⟩,
    ⟨.block [1, 2], .none⟩]
  root := 3

/-- The store of the path around the branch shows the type argument of the first variable as
nullable. In its join with the store of the branch the type argument is not null. -/
theorem branchWrite_hides_nullable :
    branchWrite.validate = .ok () ∧ ∃ method, branchWrite.method? = some method ∧
      ∃ solution final, (method.graph boxClasses ⟨40, false⟩ false).solve
          (method.context boxClasses ⟨40, false⟩ false) Store.entry
          (Comparison.muted (method.session ⟨40, false⟩)) = (some solution, final) ∧
        let sent := (method.graph boxClasses ⟨40, false⟩ false).resent
          (method.context boxClasses ⟨40, false⟩ false) solution.entry final
        ∃ slot around inside, final.slots.get? (.localVar 0) = some slot ∧
          (2, around) ∈ sent 0 ∧ (2, inside) ∈ sent 1 ∧
          around.isReachable = true ∧ inside.isReachable = true ∧
          (Value.ofSlot final.slots around (boxed .nullable) (some slot)).NullableAt [0] ∧
          ¬ (Value.ofSlot final.slots (around.join final.slots inside) (boxed .nullable)
            (some slot)).NullableAt [0] := by
  have valid : branchWrite.validate = .ok () := by decide +kernel
  obtain ⟨method, found⟩ := method?_exists valid
  have checked : (branchWrite.method?.all fun method =>
      let answer := (method.graph boxClasses ⟨40, false⟩ false).solve
        (method.context boxClasses ⟨40, false⟩ false) Store.entry
        (Comparison.muted (method.session ⟨40, false⟩))
      answer.1.any fun solution =>
        let sent := (method.graph boxClasses ⟨40, false⟩ false).resent
          (method.context boxClasses ⟨40, false⟩ false) solution.entry answer.2
        (answer.2.slots.get? (.localVar 0)).any fun slot => (sent 0).any fun around =>
          (sent 1).any fun inside => around.1 == 2 && inside.1 == 2 && around.2.isReachable &&
            inside.2.isReachable &&
            decide ((Value.ofSlot answer.2.slots around.2 (boxed .nullable)
              (some slot)).NullableAt [0]) &&
            !decide ((Value.ofSlot answer.2.slots (around.2.join answer.2.slots inside.2)
              (boxed .nullable) (some slot)).NullableAt [0])) = true := by
    decide +kernel
  rw [found, Option.all_some] at checked
  obtain ⟨solution, isSolution, checked⟩ := (Option.any_eq_true _ _).mp checked
  obtain ⟨slot, isSlot, checked⟩ := (Option.any_eq_true _ _).mp checked
  obtain ⟨⟨target, around⟩, fromEntry, checked⟩ := List.any_eq_true.mp checked
  obtain ⟨⟨other, inside⟩, fromBranch, checked⟩ := List.any_eq_true.mp checked
  simp only [Bool.and_eq_true, beq_iff_eq, decide_eq_true_eq, Bool.not_eq_true',
    decide_eq_false_iff_not] at checked
  obtain ⟨⟨⟨⟨⟨rfl, rfl⟩, reachableAround⟩, reachableInside⟩, nullable⟩, hidden⟩ := checked
  exact ⟨valid, method, found, solution, _, Prod.ext isSolution rfl, slot, around, inside, isSlot,
    fromEntry, fromBranch, reachableAround, reachableInside, nullable, hidden⟩

end Example

end Body
end NullFlow
