import NullFlow.Proofs.Analysis.Outline
import NullFlow.Proofs.Analysis.Writes
/-!
Meanings that can be compared, and what makes a meaning of this kind from the rules for its value
and for its outcomes as a condition.
-/

namespace NullFlow

namespace Comparison

variable (pair : Comparison)

/-- Two evaluations of the rule compare if their stores do. -/
def ValueTracks (tracked : Bool) (rule : Store → Analysis (Value × Store)) : Prop :=
  ∀ ⦃first second : Session⦄ ⦃one two : Store⦄, pair.Related pair.stores first second one two →
    pair.Runs (pair.values tracked) first second (rule one) (rule two)

def BranchesTrack (rule : Store → Analysis Branches) : Prop :=
  ∀ ⦃first second : Session⦄ ⦃one two : Store⦄, pair.Related pair.stores first second one two →
    pair.Runs pair.branches first second (rule one) (rule two)

def TargetTracks (tracked : Bool) (rule : Store → Analysis (Target × Store)) : Prop :=
  ∀ ⦃first second : Session⦄ ⦃one two : Store⦄, pair.Related pair.stores first second one two →
    pair.Runs (pair.targets tracked) first second (rule one) (rule two)

/-- A meaning that keeps to an outline. -/
structure Tracks (outline : Outline) (meaning : Meaning) : Prop where
  flatType : meaning.ty?.all Ty.isFlat = true
  value : pair.ValueTracks outline.tracked meaning.value
  /-- Nothing is evaluated where control does not come. -/
  unreached : ∀ session, meaning.value .unreachable session =
    ((.unresolved, .unreachable), session)
  branches : pair.BranchesTrack meaning.branches
  undecided : ∀ session, meaning.branches .unreachable session =
    (⟨.unreachable, .unreachable⟩, session)
  target : outline.settled = true → pair.TargetTracks outline.tracked meaning.target
  /-- The analysis of a lambda touches nothing but the slot table. -/
  lambda : ∀ analyze, meaning.lambda? = some analyze → ∀ (delegate? : Option Ty) {session : Session},
    pair.layout.Fits session.slots → pair.Alone .any session (analyze delegate?)

variable {pair}

/-- A value does not make a store reachable. -/
theorem Tracks.reachable {outline : Outline} {meaning : Meaning}
    (tracks : pair.Tracks outline meaning) {before after : Session} {store result : Store}
    {value : Value} (evaluated : meaning.value store before = ((value, result), after))
    (reachable : result.isReachable = true) : store.isReachable = true := by
  cases store with
  | reachable facts => rfl
  | unreachable =>
      rw [tracks.unreached] at evaluated
      obtain rfl : Store.unreachable = result := congrArg (fun pair => pair.1.2) evaluated
      exact reachable

section Guards

variable {tracked : Bool}

/-- Stores that are reachable in one run alone belong to runs that need not compare. -/
theorem Related.unknown {first second : Session} {one two : Store}
    (related : pair.Related pair.stores first second one two)
    (differ : one.isReachable ≠ two.isReachable) : ¬first.slots.Extends pair.target :=
  fun known => differ (related.alike known).reachable

/-- A guarded rule need track from live stores alone. -/
theorem ValueTracks.guard {rule : Store → Analysis (Value × Store)}
    (tracks : pair.ValueTracks tracked rule) :
    pair.ValueTracks tracked (Meaning.guardValue rule) := by
  intro first second one two related
  have unreached : ∀ {session : Session}, pair.layout.Fits session.slots →
      pair.Alone (pair.values tracked) session (pure (.unresolved, .unreachable)) := by
    intro session fits
    refine ⟨.refl fits, loose_fits (fun _ _ found => ?_) rfl _ fun _ => rfl⟩
    cases found
  cases one with
  | unreachable =>
      cases two with
      | unreachable =>
          refine ⟨unreached related.layoutFirst, unreached related.layoutSecond, fun _ => ?_⟩
          exact ⟨alike_refl _, .refl _⟩
      | reachable facts =>
          exact .of_alone (related.unknown (by simp [Store.isReachable]))
            (unreached related.layoutFirst) (tracks related).aloneSecond
  | reachable facts =>
      cases two with
      | unreachable =>
          exact .of_alone (related.unknown (by simp [Store.isReachable]))
            (tracks related).aloneFirst (unreached related.layoutSecond)
      | reachable others => exact tracks related

/-- An unreachable store stays as it is in both outcomes. -/
theorem Related.branches {first second : Session} {one two three four : Store}
    (left : pair.Related pair.stores first second one two)
    (right : pair.Related pair.stores first second three four) :
    pair.Related pair.branches first second ⟨one, three⟩ ⟨two, four⟩ :=
  left.with ⟨left.fitsFirst, right.fitsFirst⟩ ⟨left.fitsSecond, right.fitsSecond⟩ fun known =>
    ⟨left.alike known, right.alike known⟩

theorem Related.whenTrue {first second : Session} {one two : Branches}
    (related : pair.Related pair.branches first second one two) :
    pair.Related pair.stores first second one.whenTrue two.whenTrue :=
  related.with related.fitsFirst.1 related.fitsSecond.1 fun known => (related.alike known).1

theorem Related.whenFalse {first second : Session} {one two : Branches}
    (related : pair.Related pair.branches first second one two) :
    pair.Related pair.stores first second one.whenFalse two.whenFalse :=
  related.with related.fitsFirst.2 related.fitsSecond.2 fun known => (related.alike known).2

theorem BranchesTrack.guard {rule : Store → Analysis Branches} (tracks : pair.BranchesTrack rule) :
    pair.BranchesTrack (Meaning.guardBranches rule) := by
  intro first second one two related
  exact .ite (fun known => (related.alike known).reachable) (tracks related)
    (.pure (related.branches related))

/-- A target that the value of an expression names. -/
theorem ValueTracks.plainTarget {rule : Store → Analysis (Value × Store)} (ty? : Option Ty)
    (tracks : pair.ValueTracks tracked rule) :
    pair.TargetTracks tracked (Meaning.plainTarget ty? rule) := by
  intro first second one two related
  refine (tracks related).bind related.reached ?_
  rintro first' second' ⟨valueOne, one⟩ ⟨valueTwo, two⟩ _ _ values
  refine .pure (values.with values.fitsFirst.2 values.fitsSecond.2 fun known => ?_)
  exact ⟨(values.alike known).1.slot, rfl, (values.alike known).2⟩

/-- Both outcomes of a value know the store after it. -/
theorem ValueTracks.branches {rule : Store → Analysis (Value × Store)}
    (tracks : pair.ValueTracks tracked rule) : pair.BranchesTrack fun store => do
      let (_, store) ← rule store
      return ⟨store, store⟩ := by
  intro first second one two related
  refine (tracks related).bind related.reached ?_
  rintro first' second' ⟨valueOne, one⟩ ⟨valueTwo, two⟩ _ _ values
  exact .pure (values.stores_of_values.branches values.stores_of_values)

end Guards

section Meanings

variable {tracked settled flat : Bool} {span : Span} {ty? : Option Ty}

/-- A node given by the rule of its value tracks if the rule does. -/
theorem tracks_ofValue (flatType : ty?.all Ty.isFlat = true)
    {rule : Store → Analysis (Value × Store)} (tracks : pair.ValueTracks tracked rule) :
    pair.Tracks ⟨flat, tracked, settled⟩ (Meaning.ofValue span ty? rule) where
  flatType := flatType
  value := tracks.guard
  unreached _ := rfl
  branches := tracks.branches.guard
  undecided _ := rfl
  target _ := tracks.guard.plainTarget ty?
  lambda := fun _ none => by cases none

/-- The value of a condition is never null, and the store after it covers both outcomes. -/
theorem BranchesTrack.value (flatType : ty?.all Ty.isFlat = true)
    {rule : Store → Analysis Branches} (tracks : pair.BranchesTrack rule) :
    pair.ValueTracks false fun store => do
      let branches ← rule store
      return (.loose .notNull ty?,
        branches.whenTrue.join (← Analysis.slots) branches.whenFalse) := by
  intro first second one two related
  refine (tracks related).bind related.reached ?_
  intro first' second' branchesOne branchesTwo _ _ branches
  refine .withSlots (.pure ?_)
  have joined := branches.whenTrue.join branches.whenFalse
  exact joined.loose (joined.states _) flatType flatType fun _ => rfl

/-- A node given by the rule of its branches tracks if the rule does. -/
theorem tracks_ofBranches (flatType : ty?.all Ty.isFlat = true)
    {rule : Store → Analysis Branches} (tracks : pair.BranchesTrack rule) :
    pair.Tracks ⟨flat, false, settled⟩ (Meaning.ofBranches span ty? rule) where
  flatType := flatType
  value := (tracks.value flatType).guard
  unreached _ := rfl
  branches := tracks.guard
  undecided _ := rfl
  target _ := (tracks.value flatType).guard.plainTarget ty?
  lambda := fun _ none => by cases none

end Meanings

end Comparison
end NullFlow
