import NullFlow.Proofs.Analysis.Rules.Operations
/-!
The rules for conditions compare.
-/

namespace NullFlow.Comparison

variable {pair : Comparison} {left right operand : Part}
variable {outline outlineLeft outlineRight : Outline}

/-- The branches of a negation are related as those of its operand are. -/
theorem notRule_track (tracks : pair.Tracks outline operand.get) :
    pair.BranchesTrack (notRule operand) := by
  intro first second one two related
  refine (tracks.branches related).bind related.reached ?_
  intro first' second' branchesOne branchesTwo _ _ branches
  exact .pure (branches.whenFalse.branches branches.whenTrue)

/-- The branches of a conjunction are related if those of its operands are. -/
theorem andRule_track (tracksLeft : pair.Tracks outlineLeft left.get)
    (tracksRight : pair.Tracks outlineRight right.get) :
    pair.BranchesTrack (andRule left right) := by
  intro first second one two related
  refine (tracksLeft.branches related).bind related.reached ?_
  intro first1 second1 leftOne leftTwo _ _ lefts
  refine (tracksRight.branches lefts.whenTrue).bind lefts.reached ?_
  intro first2 second2 rightOne rightTwo growsFirst growsSecond rights
  refine .withSlots (.pure (rights.whenTrue.branches ?_))
  exact (lefts.whenFalse.grow growsFirst growsSecond).join rights.whenFalse

/-- The branches of a disjunction are related if those of its operands are. -/
theorem orRule_track (tracksLeft : pair.Tracks outlineLeft left.get)
    (tracksRight : pair.Tracks outlineRight right.get) :
    pair.BranchesTrack (orRule left right) := by
  intro first second one two related
  refine (tracksLeft.branches related).bind related.reached ?_
  intro first1 second1 leftOne leftTwo _ _ lefts
  refine (tracksRight.branches lefts.whenFalse).bind lefts.reached ?_
  intro first2 second2 rightOne rightTwo growsFirst growsSecond rights
  refine .withSlots (.pure (Related.branches ?_ rights.whenFalse))
  exact (lefts.whenTrue.grow growsFirst growsSecond).join rights.whenTrue

/-- A slot that equals a value is not null if the value is not null. -/
theorem Related.assignUnless {first second : Session} {one two : Store}
    {slotOne slotTwo : Option SlotId} {stateOne stateTwo : FlowState}
    (places : pair.Related place first second slotOne slotTwo)
    (states : pair.Related pair.states first second stateOne stateTwo)
    (stores : pair.Related pair.stores first second one two) :
    pair.Related pair.stores first second
      (if stateOne.isMaybeNull then one else one.assign slotOne .notNull)
      (if stateTwo.isMaybeNull then two else two.assign slotTwo .notNull) := by
  have assigned := places.assign (stores.states .notNull) stores
  refine stores.with ?_ ?_ fun known => ?_
  · split
    · exact stores.fitsFirst
    · exact assigned.fitsFirst
  · split
    · exact stores.fitsSecond
    · exact assigned.fitsSecond
  · rcases (states.alike known).cases with rfl | ⟨isUpper, rfl, rfl⟩
    · split
      · exact stores.alike known
      · exact assigned.alike known
    · have matching := stores.alike known
      change Store.Matches pair.bound pair.target _ _ at matching ⊢
      rw [isUpper] at matching ⊢
      exact matching.assign_notNull slotOne

variable (left right) in
/-- Comparisons of related values narrow related stores to related ones. -/
theorem Related.compareValues {first second : Session} {one two : Store}
    {trackedLeft trackedRight : Bool} {leftOne leftTwo rightOne rightTwo : Value}
    {storeOne storeTwo : Store}
    (lefts : pair.Related (pair.values trackedLeft) first second (leftOne, storeOne)
      (leftTwo, storeTwo))
    (rights : pair.Related (pair.values trackedRight) first second (rightOne, one)
      (rightTwo, two)) :
    pair.Related pair.branches first second (compareValues left right leftOne rightOne one)
      (compareValues left right leftTwo rightTwo two) := by
  have stores := rights.stores_of_values
  unfold NullFlow.compareValues
  cases left.isNull with
  | false =>
      cases right.isNull with
      | false =>
          have equal := rights.place_of_values.assignUnless lefts.states_of_values
            (lefts.place_of_values.assignUnless rights.states_of_values stores)
          exact equal.branches stores
      | true =>
          exact (lefts.place_of_values.assign (stores.states .maybeNull) stores).branches
            (lefts.place_of_values.assign (stores.states .notNull) stores)
  | true =>
      cases right.isNull with
      | false =>
          exact (rights.place_of_values.assign (stores.states .maybeNull) stores).branches
            (rights.place_of_values.assign (stores.states .notNull) stores)
      | true => exact stores.branches stores

/-- The branches of a comparison are related if its operands track. -/
theorem equalityRule_track (negated : Bool) (tracksLeft : pair.Tracks outlineLeft left.get)
    (tracksRight : pair.Tracks outlineRight right.get) :
    pair.BranchesTrack (equalityRule negated left right) := by
  intro first second one two related
  refine (tracksLeft.value related).bind related.reached ?_
  rintro first1 second1 ⟨leftOne, one⟩ ⟨leftTwo, two⟩ _ _ lefts
  refine (tracksRight.value lefts.stores_of_values).bind lefts.reached ?_
  rintro first2 second2 ⟨rightOne, one⟩ ⟨rightTwo, two⟩ growsFirst growsSecond rights
  have branches := Related.compareValues left right (lefts.grow growsFirst growsSecond) rights
  cases negated with
  | false => exact .pure branches
  | true => exact .pure (branches.whenFalse.branches branches.whenTrue)

/-- The branches of a pattern are related if the value tested tracks. -/
theorem testRule_track (pattern : Pattern) (tracks : pair.Tracks outline operand.get) :
    pair.BranchesTrack (testRule operand pattern) := by
  intro first second one two related
  refine (tracks.value related).bind related.reached ?_
  rintro first' second' ⟨valueOne, one⟩ ⟨valueTwo, two⟩ _ _ values
  have stores := values.stores_of_values
  have isNull := values.place_of_values.assign (stores.states .maybeNull) stores
  have notNull := values.place_of_values.assign (stores.states .notNull) stores
  cases pattern with
  | null => exact .pure (isNull.branches notNull)
  | type ty => exact .pure (notNull.branches stores)

end NullFlow.Comparison
