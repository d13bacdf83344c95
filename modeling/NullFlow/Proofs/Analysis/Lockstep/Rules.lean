import NullFlow.Proofs.Analysis.Lockstep.Effects
import NullFlow.Proofs.Analysis.Rules.Operations
/-!
The rules for places, values and conditions keep two runs in lockstep.
-/

namespace NullFlow

namespace Lockstep

section Meanings

variable (layout : Layout)

/-- Two runs of the rule stay in lockstep, and less is known of the second value. -/
def ValueRises (rule : Store → Analysis (Value × Store)) : Prop :=
  ∀ ⦃first second : Session⦄ ⦃one two : Store⦄, Lockstep layout first second →
    one.Ordered first.slots two → Runs layout (values layout) first second (rule one) (rule two)

def BranchesRise (rule : Store → Analysis Branches) : Prop :=
  ∀ ⦃first second : Session⦄ ⦃one two : Store⦄, Lockstep layout first second →
    one.Ordered first.slots two → Runs layout branches first second (rule one) (rule two)

def TargetRises (rule : Store → Analysis (Target × Store)) : Prop :=
  ∀ ⦃first second : Session⦄ ⦃one two : Store⦄, Lockstep layout first second →
    one.Ordered first.slots two → Runs layout targets first second (rule one) (rule two)

/-- An expression that keeps two runs in lockstep, in whatever way it is evaluated. -/
structure Rises (meaning : Meaning) : Prop where
  basic : meaning.ty?.all Ty.isBasic = true
  value : ValueRises layout meaning.value
  branches : BranchesRise layout meaning.branches
  target : TargetRises layout meaning.target
  noLambda : meaning.lambda? = none

end Meanings

variable {layout : Layout} {context : Context} {ty? : Option Ty}

section Guards

variable {span : Span}

theorem unresolved_ordered (table : SlotTable) :
    Value.Ordered layout table .unresolved .unresolved :=
  .loose (FlowState.le_refl _) rfl rfl

/-- A rule that is guarded answers for unreachable stores itself, so it need rise from live ones
alone. -/
theorem ValueRises.guard {rule : Store → Analysis (Value × Store)} (rises : ValueRises layout rule) :
    ValueRises layout (Meaning.guardValue rule) := by
  intro first second one two sessions stores
  unfold Meaning.guardValue
  rw [← stores.states.reachable]
  split
  · exact rises sessions stores
  · exact .pure sessions ⟨unresolved_ordered _, stores⟩

theorem BranchesRise.guard {rule : Store → Analysis Branches} (rise : BranchesRise layout rule) :
    BranchesRise layout (Meaning.guardBranches rule) := by
  intro first second one two sessions stores
  unfold Meaning.guardBranches
  rw [← stores.states.reachable]
  split
  · exact rise sessions stores
  · exact .pure sessions ⟨stores, stores⟩

/-- A target that the value of an expression names. -/
theorem ValueRises.plainTarget (basic : ty?.all Ty.isBasic = true)
    {rule : Store → Analysis (Value × Store)} (rises : ValueRises layout rule) :
    TargetRises layout (Meaning.plainTarget ty? rule) := by
  intro first second one two sessions stores
  refine (rises sessions stores).bind ?_
  rintro first' second' ⟨valueOne, one⟩ ⟨valueTwo, two⟩ _ sessions ⟨values, stores⟩
  exact .pure sessions ⟨⟨by rw [values.slot], values.inside, basic⟩, stores⟩

/-- Both outcomes of a value know the store after it. -/
theorem ValueRises.branches {rule : Store → Analysis (Value × Store)}
    (rises : ValueRises layout rule) : BranchesRise layout fun store => do
      let (_, store) ← rule store
      return ⟨store, store⟩ := by
  intro first second one two sessions stores
  refine (rises sessions stores).bind ?_
  rintro first' second' ⟨valueOne, one⟩ ⟨valueTwo, two⟩ _ sessions ⟨_, stores⟩
  exact .pure sessions ⟨stores, stores⟩

/-- A node given by the rule of its value rises if the rule does, in its branches too. -/
theorem rises_ofValue (basic : ty?.all Ty.isBasic = true)
    {rule : Store → Analysis (Value × Store)} (rises : ValueRises layout rule) :
    Rises layout (Meaning.ofValue span ty? rule) :=
  ⟨basic, rises.guard, rises.branches.guard, rises.guard.plainTarget basic, rfl⟩

/-- The value of a condition is never null, and the store after it covers both outcomes. -/
theorem BranchesRise.value (basic : ty?.all Ty.isBasic = true) {rule : Store → Analysis Branches}
    (rise : BranchesRise layout rule) : ValueRises layout fun store => do
      let branches ← rule store
      return (.loose .notNull ty?,
        branches.whenTrue.join (← Analysis.slots) branches.whenFalse) := by
  intro first second one two sessions stores
  refine (rise sessions stores).bind ?_
  intro first' second' branchesOne branchesTwo _ sessions branches
  exact .withSlots sessions (.pure sessions
    ⟨.loose (FlowState.le_refl _) basic rfl, branches.1.join branches.2⟩)

/-- A node given by the rule of its branches rises if the rule does, in its value too. -/
theorem rises_ofBranches (basic : ty?.all Ty.isBasic = true) {rule : Store → Analysis Branches}
    (rise : BranchesRise layout rule) : Rises layout (Meaning.ofBranches span ty? rule) :=
  ⟨basic, (rise.value basic).guard, rise.guard, (rise.value basic).guard.plainTarget basic, rfl⟩

end Guards

section Leaves

/-- A variable that the layout covers rises: its slot is the same in both runs. -/
theorem readRule_rises {source : Variable} (covered : layout.coversVariable source = true)
    (basic : source.ty.isBasic = true) : ValueRises layout (readRule source) := by
  intro first second one two sessions stores
  refine (Runs.intern sessions (Layout.state_of_variable covered) rfl).bind ?_
  rintro first' second' slot _ extended sessions ⟨rfl, inside⟩
  have stores := stores.grow extended
  exact .withSlots sessions
    (.pure sessions ⟨.ofSlot basic (inside_some inside) stores, stores⟩)

theorem variableTarget_rises {source : Variable} (covered : layout.coversVariable source = true)
    (basic : source.ty.isBasic = true) : TargetRises layout (variableTarget source) := by
  intro first second one two sessions stores
  refine (Runs.intern sessions (Layout.state_of_variable covered) rfl).bind ?_
  rintro first' second' slot _ extended sessions ⟨rfl, inside⟩
  exact .pure sessions ⟨⟨rfl, inside_some inside, basic⟩, stores.grow extended⟩

/-- The receiver of a method of a basic class is never null in either run. -/
theorem thisRule_rises (basicThis : context.thisType?.all Ty.isBasic = true)
    (basic : ty?.all Ty.isBasic = true) : ValueRises layout (thisRule context ty?) := by
  intro first second one two sessions stores
  refine (Runs.intern sessions rfl rfl).bind ?_
  rintro first' second' slot _ extended sessions ⟨rfl, inside⟩
  have basicValue : (((context.thisType?.orElse fun _ => ty?).map (Ty.withState .notNull)).all
      Ty.isBasic) = true := by
    rw [Ty.all_isBasic_map_withState]
    cases isThis : context.thisType? with
    | none => exact basic
    | some ty => rwa [isThis] at basicThis
  exact .pure sessions ⟨⟨⟨rfl, FlowState.le_refl _, rfl, .nil⟩, inside_some inside, basicValue,
    by simp⟩, stores.grow extended⟩

/-- A rule that yields the same value in every store. -/
theorem constant_rises {state : FlowState} (basic : ty?.all Ty.isBasic = true) :
    ValueRises layout fun store => return (.loose state ty?, store) := by
  intro first second one two sessions stores
  exact .pure sessions ⟨.loose (FlowState.le_refl _) basic rfl, stores⟩

theorem literal_rises {value : Literal} (basic : ty?.all Ty.isBasic = true) :
    ValueRises layout fun store => return (literalValue ty? value, store) := by
  cases value with
  | null =>
      refine constant_rises ?_
      cases ty? with
      | none => rfl
      | some ty => exact basic
  | _ => exact constant_rises ((Ty.all_isBasic_map_withState ty? _).trans basic)

theorem literalBranches_rise (value : Literal) :
    BranchesRise layout fun store => return literalBranches value store := by
  intro first second one two sessions stores
  have dead := Store.Ordered.unreachable first.slots
  cases value with
  | bool value =>
      cases value with
      | false => exact .pure sessions ⟨dead, stores⟩
      | true => exact .pure sessions ⟨stores, dead⟩
  | _ => exact .pure sessions ⟨stores, stores⟩

/-- A member without a receiver lies at no place. -/
theorem noTarget_rises (basic : ty?.all Ty.isBasic = true) : TargetRises layout fun store =>
    return (⟨none, ty?, false, false⟩, store) := by
  intro first second one two sessions stores
  exact .pure sessions ⟨⟨rfl, by simp, basic⟩, stores⟩

end Leaves

section Operands

variable {operand : Part}

/-- A cast to a basic type rises with its operand. -/
theorem castRule_rises (basic : ty?.all Ty.isBasic = true) (rises : Rises layout operand.get) :
    ValueRises layout (castRule ty? operand) := by
  intro first second one two sessions stores
  refine (rises.value sessions stores).bind ?_
  rintro first' second' ⟨valueOne, one⟩ ⟨valueTwo, two⟩ _ sessions ⟨values, stores⟩
  refine .pure sessions ⟨⟨⟨values.slot, ?_, by simp only [Ty.map_shape_map_withState],
    values.seeds⟩, values.inside, (Ty.all_isBasic_map_withState ty? _).trans basic,
    values.seedsFit⟩, stores⟩
  dsimp only
  split
  · exact FlowState.le_refl _
  · exact values.state

/-- A suppressed operand is not null in either run. -/
theorem suppressRule_rises (rises : Rises layout operand.get) :
    ValueRises layout (suppressRule operand) := by
  intro first second one two sessions stores
  refine (rises.value sessions stores).bind ?_
  rintro first' second' ⟨valueOne, one⟩ ⟨valueTwo, two⟩ _ sessions ⟨values, stores⟩
  have suppressed : ∀ {value : Value}, value.ty?.all Ty.isBasic = true →
      value.ty?.map (fun ty => ty.obliviousNested.withState .notNull) =
        value.ty?.map (Ty.withState .notNull) := by
    intro value basic
    refine Option.map_congr fun ty isTy => ?_
    rw [isTy, Option.all_some] at basic
    rw [Ty.isFlat_obliviousNested (Ty.isFlat_of_basic basic)]
  simp only [suppressed values.basic, suppressed values.basicSecond]
  refine .pure sessions ⟨⟨⟨values.slot, FlowState.le_refl _, ?_, values.seeds⟩, values.inside,
    (Ty.all_isBasic_map_withState _ _).trans values.basic, values.seedsFit⟩,
    values.assign stores (FlowState.le_refl _)⟩
  simpa only [Ty.map_shape_map_withState] using values.shape

end Operands

section Members

variable {receiver position : Part} {member : Member} {Result : Type}

/-- Both runs evaluate and dereference the receiver, find the same slot of the member, and go on. -/
theorem place_runs (covered : layout.coversMember member = true) {base : Meaning}
    (rises : Rises layout base) {span : Span} {order : SlotTable → Result → Result → Prop}
    {next : Store → Option SlotId → Analysis Result} {first second : Session} {one two : Store}
    (sessions : Lockstep layout first second) (stores : one.Ordered first.slots two)
    (late : ∀ {first' second' one two slot?}, Lockstep layout first' second' →
      one.Ordered first'.slots two → (Comparison.named member.name).fits first'.slots slot? →
      Runs layout order first' second' (next one slot?) (next two slot?)) :
    let rule := fun store => do
      let (value, store) ← base.value store
      let store ← context.dereference value span store
      let slot? ← Analysis.onSlots
        (SlotTable.member value.slot? member.name member.ty.declaredState)
      next store slot?
    Runs layout order first second (rule one) (rule two) := by
  obtain ⟨_, _, known⟩ := Layout.state_of_member covered
  refine (rises.value sessions stores).bind ?_
  rintro first1 second1 ⟨baseOne, one⟩ ⟨baseTwo, two⟩ _ sessions ⟨bases, stores⟩
  refine (Runs.dereference sessions stores bases).bind ?_
  intro first2 second2 one two extended sessions stores
  have bases := bases.grow extended
  rw [← show baseOne.slot? = baseTwo.slot? from bases.slot]
  refine (Runs.member sessions bases.inside known).bind ?_
  rintro first3 second3 slot? _ extended sessions ⟨rfl, named⟩
  exact late sessions (stores.grow extended) named

/-- A member that the layout covers is read in lockstep if its receiver rises. -/
theorem memberRule_rises (covered : layout.coversMember member = true)
    (basic : member.ty.isBasic = true) (rises : Rises layout receiver.get) :
    ValueRises layout (memberRule context receiver member) := by
  intro first second one two sessions stores
  obtain ⟨_, closed, known⟩ := Layout.state_of_member covered
  unfold memberRule
  simp only [context.memberType?_of_closed _ closed]
  refine place_runs covered rises sessions stores ?_
  intro first' second' one two slot? sessions stores named
  have placed : ∀ {session : Session}, session.slots = first'.slots → ∀ store : Store,
      (do return (← placeValue member.ty slot? store, store)) session =
        ((Comparison.placed session.slots store member.ty slot?, store), session) := by
    intro session same store
    have result := @Comparison.placeValue_eq (.ofLayout layout .upper false) session
      (same ▸ sessions.fits) member.name slot? (same ▸ named) member.ty known store
    exact congrArg (fun result => ((result.1, store), result.2)) result
  refine .congr (placed rfl one) (placed sessions.slots two) (.pure sessions ⟨?_, stores⟩)
  rw [sessions.slots]
  cases slot? with
  | none => exact .loose (FlowState.le_refl _) basic rfl
  | some slot => exact .ofSlot basic (inside_of_named named) stores

/-- A member that the layout covers is written in lockstep if its receiver rises. -/
theorem memberTarget_rises (covered : layout.coversMember member = true)
    (basic : member.ty.isBasic = true) (rises : Rises layout receiver.get) :
    TargetRises layout (memberTarget context receiver member) := by
  intro first second one two sessions stores
  obtain ⟨_, closed, _⟩ := Layout.state_of_member covered
  unfold memberTarget
  simp only [context.memberType?_of_closed _ closed]
  refine place_runs covered rises sessions stores ?_
  intro first' second' one two slot? sessions stores named
  have targets : Target.Ordered first'.slots ⟨slot?, some member.ty, false, false⟩
      ⟨slot?, some member.ty, false, false⟩ := ⟨rfl, inside_of_named named, basic⟩
  cases slot? with
  | some slot => exact .pure sessions ⟨targets, stores⟩
  | none =>
      exact .withSlots sessions (.pure sessions ⟨targets, stores.invalidate sessions.fits _⟩)

/-- The receiver of an element access beside the store after both parts. -/
theorem evaluateIndex_runs (risesReceiver : Rises layout receiver.get)
    (risesPosition : Rises layout position.get) {first second : Session} {one two : Store}
    (sessions : Lockstep layout first second) (stores : one.Ordered first.slots two) :
    Runs layout (values layout) first second (evaluateIndex context receiver position one)
      (evaluateIndex context receiver position two) := by
  refine (risesReceiver.value sessions stores).bind ?_
  rintro first1 second1 ⟨baseOne, one⟩ ⟨baseTwo, two⟩ _ sessions ⟨bases, stores⟩
  refine (risesPosition.value sessions stores).bind ?_
  rintro first2 second2 ⟨_, one⟩ ⟨_, two⟩ extended sessions ⟨_, stores⟩
  have bases := bases.grow extended
  refine (Runs.dereference sessions stores bases).bind ?_
  intro first3 second3 one two extended sessions stores
  exact .pure sessions ⟨bases.grow extended, stores⟩

/-- An element access with a basic type rises if both of its parts do. -/
theorem indexRule_rises (basic : ty?.all Ty.isBasic = true)
    (risesReceiver : Rises layout receiver.get) (risesPosition : Rises layout position.get) :
    ValueRises layout (indexRule context ty? receiver position) := by
  intro first second one two sessions stores
  refine (evaluateIndex_runs risesReceiver risesPosition sessions stores).bind ?_
  rintro first' second' ⟨baseOne, one⟩ ⟨baseTwo, two⟩ _ sessions ⟨bases, stores⟩
  simp only [Comparison.no_elements (Ty.all_isFlat_of_basic bases.basic),
    Comparison.no_elements (Ty.all_isFlat_of_basic bases.basicSecond)]
  cases ty? with
  | none => exact .pure sessions ⟨unresolved_ordered _, stores⟩
  | some ty => exact .pure sessions ⟨.loose (FlowState.le_refl _) basic rfl, stores⟩

theorem indexTarget_rises (basic : ty?.all Ty.isBasic = true)
    (risesReceiver : Rises layout receiver.get) (risesPosition : Rises layout position.get) :
    TargetRises layout (indexTarget context ty? receiver position) := by
  intro first second one two sessions stores
  refine (evaluateIndex_runs risesReceiver risesPosition sessions stores).bind ?_
  rintro first' second' ⟨baseOne, one⟩ ⟨baseTwo, two⟩ _ sessions ⟨bases, stores⟩
  simp only [Comparison.no_elements (Ty.all_isFlat_of_basic bases.basic),
    Comparison.no_elements (Ty.all_isFlat_of_basic bases.basicSecond)]
  exact .pure sessions ⟨⟨rfl, by simp, basic⟩, stores⟩

end Members

section Lists

/-- Every part of a list keeps two runs in lockstep. -/
def AllRise (layout : Layout) (parts : List Part) : Prop := ∀ part ∈ parts, Rises layout part.get

/-- Operands that rise may be evaluated in a row. -/
theorem evaluateAll_runs {parts : List Part} (rise : AllRise layout parts) {first second : Session}
    {one two : Store} (sessions : Lockstep layout first second)
    (stores : one.Ordered first.slots two) :
    Runs layout (fun table one two => one.2.Ordered table two.2) first second
      (evaluateAll parts one) (evaluateAll parts two) := by
  induction parts generalizing first second one two with
  | nil => exact .pure sessions stores
  | cons part rest ih =>
      obtain ⟨risesPart, riseRest⟩ := List.forall_mem_cons.mp rise
      refine (risesPart.value sessions stores).bind ?_
      rintro first1 second1 ⟨valueOne, one⟩ ⟨valueTwo, two⟩ _ sessions ⟨_, stores⟩
      refine (ih riseRest sessions stores).bind ?_
      rintro first2 second2 ⟨valuesOne, one⟩ ⟨valuesTwo, two⟩ _ sessions stores
      exact .pure sessions stores

theorem operationRule_rises (basic : ty?.all Ty.isBasic = true) {operands : List Part}
    (rise : AllRise layout operands) : ValueRises layout (operationRule ty? operands) := by
  intro first second one two sessions stores
  refine (evaluateAll_runs rise sessions stores).bind ?_
  rintro first' second' ⟨_, one⟩ ⟨_, two⟩ _ sessions stores
  exact .pure sessions ⟨.loose (FlowState.le_refl _) basic rfl, stores⟩

theorem badRule_rises {children : List Part} (rise : AllRise layout children) :
    ValueRises layout (badRule children) := by
  intro first second one two sessions stores
  refine (evaluateAll_runs rise sessions stores).bind ?_
  rintro first' second' ⟨_, one⟩ ⟨_, two⟩ _ sessions stores
  exact .pure sessions ⟨unresolved_ordered _, stores⟩

end Lists

section Choices

variable {left right : Part}

/-- A conditional rises if its condition and both of its arms do. -/
theorem conditionalRule_rises {condition whenTrue whenFalse : Part}
    (basic : ty?.all Ty.isBasic = true) (risesCondition : Rises layout condition.get)
    (risesTrue : Rises layout whenTrue.get) (risesFalse : Rises layout whenFalse.get) :
    ValueRises layout (conditionalRule context ty? condition whenTrue whenFalse) := by
  intro first second one two sessions stores
  rw [Comparison.conditionalRule_eq, Comparison.conditionalRule_eq]
  refine (risesCondition.branches sessions stores).bind ?_
  rintro first1 second1 branchesOne branchesTwo _ sessions ⟨holds, fails⟩
  refine (risesTrue.value sessions holds).bind ?_
  rintro first2 second2 ⟨trueOne, afterOne⟩ ⟨trueTwo, afterTwo⟩ extended sessions ⟨trues, after⟩
  refine (risesFalse.value sessions (fails.grow extended)).bind ?_
  rintro first3 second3 ⟨falseOne, lastOne⟩ ⟨falseTwo, lastTwo⟩ extended sessions ⟨falses, last⟩
  have sameTrue := holds.states.reachable
  have sameFalse := fails.states.reachable
  have trues := trues.grow extended
  refine .withSlots sessions ?_
  refine .pure sessions ⟨.loose ?_ ?_ ?_, (after.grow extended).join last⟩
  · simp only [Comparison.chosenState, sameTrue, sameFalse]
    split
    · exact trues.state
    · exact falses.state
    · exact FlowState.le_refl _
    · exact Bound.Holds.join trues.state falses.state
  · exact Comparison.all_chosenType? Ty.isBasic_withState context basic branchesOne trues.basic
      falses.basic
  · simp only [Comparison.chosenType?, sameTrue, sameFalse]
    split
    · exact trues.shape
    · exact falses.shape
    · rfl
    · have shapeTrue := trues.shape
      have shapeFalse := falses.shape
      simp only [Ty.map_shape_map_withState, Ty.map_shape_orElse, context.shape_commonType?,
        shapeTrue, shapeFalse]

/-- Fallbacks of basic type have no marks inside to disagree. -/
theorem checkFallback_basic {one two : Value} (basic : one.ty?.all Ty.isBasic = true) (span : Span) :
    Comparison.checkFallback context one two span = pure ⟨⟩ := by
  have known := Comparison.all_knownType? basic
  unfold Comparison.checkFallback
  split
  · rename_i target source isKnown _
    rw [isKnown] at known
    exact checkShape_basic known source
  · rfl

/-- A fallback rises if both of its operands do. -/
theorem coalesceRule_rises (risesLeft : Rises layout left.get) (risesRight : Rises layout right.get) :
    ValueRises layout (coalesceRule context left right) := by
  intro first second one two sessions stores
  rw [Comparison.coalesceRule_eq, Comparison.coalesceRule_eq]
  refine (risesLeft.value sessions stores).bind ?_
  rintro first1 second1 ⟨leftOne, one⟩ ⟨leftTwo, two⟩ _ sessions ⟨lefts, stores⟩
  have sameKnown : (knownType? leftOne).map Ty.shape = (knownType? leftTwo).map Ty.shape := by
    have shape := lefts.shape
    simp only [Comparison.map_shape_knownType?, shape]
  dsimp only
  split
  · exact .pure sessions ⟨.loose lefts.state lefts.basic lefts.shape, stores⟩
  refine .ite_bind (.emit_if sessions (fun isWarning => absurd rfl isWarning) fun _ hinted => ?_) ?_
  · obtain ⟨notNull, isKnown⟩ := Bool.and_eq_true_iff.mp hinted
    have sameIsSome := congrArg Option.isSome sameKnown
    rw [Option.isSome_map, Option.isSome_map] at sameIsSome
    rw [Bool.and_eq_true_iff, sameIsSome, Bool.not_eq_true']
    refine ⟨?_, isKnown⟩
    by_contra mayBeNull
    rw [Bool.not_eq_false] at mayBeNull
    simp [FlowState.isMaybeNull_mono lefts.state mayBeNull] at notNull
  intro first2 second2 extended sessions
  have lefts := lefts.grow extended
  have stores := stores.grow extended
  refine (risesRight.value sessions (lefts.assign stores (FlowState.le_refl _))).bind ?_
  rintro first3 second3 ⟨rightOne, afterOne⟩ ⟨rightTwo, afterTwo⟩ extended sessions ⟨rights, after⟩
  have present := (lefts.grow extended).assign (stores.grow extended)
    (FlowState.le_refl .notNull)
  refine .withSlots sessions ?_
  rw [checkFallback_basic lefts.basic, checkFallback_basic lefts.basicSecond]
  refine .pure sessions ⟨.loose rights.state ?_ ?_, present.join after⟩
  · rw [Ty.all_isBasic_map_withState]
    exact Comparison.all_fallbackType? lefts.basic rights.basic
  · have shape := rights.shape
    simp only [Ty.map_shape_map_withState, Ty.map_shape_orElse, sameKnown, shape]

end Choices

section Assignments

variable {target value : Part}

/-- The value of an assignment is checked against its target in lockstep. -/
theorem Runs.checkTarget {first second : Session} (sessions : Lockstep layout first second)
    {place : Target} {span : Span} {valueOne valueTwo : Value} {table : SlotTable}
    (values : valueOne.Ordered layout table valueTwo)
    (basic : place.declared?.all Ty.isBasic = true) : Runs layout anything first second
      (Comparison.checkTarget context place valueOne span)
      (Comparison.checkTarget context place valueTwo span) := by
  unfold Comparison.checkTarget
  cases declared : place.declared? with
  | none => exact .pure sessions trivial
  | some ty =>
      rw [declared] at basic
      cases place.implicit with
      | true => exact .pure sessions trivial
      | false => exact .checkConversion sessions values basic .assignment

/-- The result of an assignment is recorded in lockstep. -/
theorem Runs.record {first second : Session} (sessions : Lockstep layout first second)
    {one two : Store} (stores : one.Ordered first.slots two) {place : Target}
    (inside : ∀ slot : Nat, place.slot? = some slot → slot < first.slots.size)
    {valueOne valueTwo : Value} (values : valueOne.Ordered layout first.slots valueTwo) :
    Runs layout Store.Ordered first second (Comparison.record place valueOne one)
      (Comparison.record place valueTwo two) := by
  unfold Comparison.record
  split
  · have old : Bound.upper.Holds _ _ := stores.lookup place.slot?
    exact .withSlots sessions (.pure sessions (stores.assign inside (old.join values.state)))
  · exact .write sessions stores values inside

/-- An assignment rises if its target and its value do. -/
theorem assignRule_rises (risesTarget : Rises layout target.get)
    (risesValue : Rises layout value.get) :
    ValueRises layout (assignRule context target value) := by
  intro first second one two sessions stores
  rw [Comparison.assignRule_eq, Comparison.assignRule_eq]
  refine (risesTarget.target sessions stores).bind ?_
  rintro first1 second1 ⟨place, one⟩ ⟨placeTwo, two⟩ _ sessions ⟨⟨same, inside, basic⟩, stores⟩
  obtain rfl : place = placeTwo := same
  refine (risesValue.value sessions stores).bind ?_
  rintro first2 second2 ⟨resultOne, one⟩ ⟨resultTwo, two⟩ extended sessions ⟨results, stores⟩
  have inside := extended.inside inside
  refine (Runs.checkTarget sessions results basic).bind ?_
  intro first3 second3 _ _ extended sessions _
  have inside := extended.inside inside
  refine (Runs.record sessions (stores.grow extended) inside (results.grow extended)).bind ?_
  intro first4 second4 one two extended sessions stores
  have inside := extended.inside inside
  exact .pure sessions ⟨⟨⟨rfl, results.state, results.shape, .nil⟩, inside, results.basic,
    by simp⟩, stores⟩

end Assignments

section Conditions

variable {left right operand : Part}

/-- The branches of a negation rise with those of its operand. -/
theorem notRule_rise (rises : Rises layout operand.get) : BranchesRise layout (notRule operand) := by
  intro first second one two sessions stores
  refine (rises.branches sessions stores).bind ?_
  rintro first' second' branchesOne branchesTwo _ sessions ⟨holds, fails⟩
  exact .pure sessions ⟨fails, holds⟩

/-- The branches of a conjunction rise with those of its operands. -/
theorem andRule_rise (risesLeft : Rises layout left.get) (risesRight : Rises layout right.get) :
    BranchesRise layout (andRule left right) := by
  intro first second one two sessions stores
  refine (risesLeft.branches sessions stores).bind ?_
  rintro first1 second1 leftOne leftTwo _ sessions ⟨holds, fails⟩
  refine (risesRight.branches sessions holds).bind ?_
  rintro first2 second2 rightOne rightTwo extended sessions ⟨both, failsLater⟩
  exact .withSlots sessions (.pure sessions ⟨both, (fails.grow extended).join failsLater⟩)

/-- The branches of a disjunction rise with those of its operands. -/
theorem orRule_rise (risesLeft : Rises layout left.get) (risesRight : Rises layout right.get) :
    BranchesRise layout (orRule left right) := by
  intro first second one two sessions stores
  refine (risesLeft.branches sessions stores).bind ?_
  rintro first1 second1 leftOne leftTwo _ sessions ⟨holds, fails⟩
  refine (risesRight.branches sessions fails).bind ?_
  rintro first2 second2 rightOne rightTwo extended sessions ⟨holdsLater, neither⟩
  exact .withSlots sessions (.pure sessions ⟨(holds.grow extended).join holdsLater, neither⟩)

variable (left right) in
/-- A comparison narrows ordered stores to ordered ones, since both runs narrow the same slots. -/
theorem compareValues_ordered {table : SlotTable} {leftOne leftTwo rightOne rightTwo : Value}
    {one two : Store} (lefts : leftOne.Ordered layout table leftTwo)
    (rights : rightOne.Ordered layout table rightTwo) (stores : one.Ordered table two) :
    branches table (compareValues left right leftOne rightOne one)
      (compareValues left right leftTwo rightTwo two) := by
  unfold compareValues
  cases left.isNull with
  | false =>
      cases right.isNull with
      | false =>
          have equalLeft := stores.assignUnless lefts.inside rights.state
          have equal := equalLeft.assignUnless rights.inside lefts.state
          rw [← lefts.slot, ← rights.slot]
          exact ⟨equal, stores⟩
      | true =>
          exact ⟨lefts.assign stores (FlowState.le_refl _), lefts.assign stores (FlowState.le_refl _)⟩
  | true =>
      cases right.isNull with
      | false =>
          exact ⟨rights.assign stores (FlowState.le_refl _),
            rights.assign stores (FlowState.le_refl _)⟩
      | true => exact ⟨stores, stores⟩

/-- The branches of a comparison rise with its operands. -/
theorem equalityRule_rise (negated : Bool) (risesLeft : Rises layout left.get)
    (risesRight : Rises layout right.get) : BranchesRise layout (equalityRule negated left right) := by
  intro first second one two sessions stores
  refine (risesLeft.value sessions stores).bind ?_
  rintro first1 second1 ⟨leftOne, one⟩ ⟨leftTwo, two⟩ _ sessions ⟨lefts, stores⟩
  refine (risesRight.value sessions stores).bind ?_
  rintro first2 second2 ⟨rightOne, one⟩ ⟨rightTwo, two⟩ extended sessions ⟨rights, stores⟩
  have outcomes := compareValues_ordered left right (lefts.grow extended) rights stores
  cases negated with
  | false => exact .pure sessions outcomes
  | true => exact .pure sessions ⟨outcomes.2, outcomes.1⟩

/-- The branches of a pattern rise with the value tested. -/
theorem testRule_rise (pattern : Pattern) (rises : Rises layout operand.get) :
    BranchesRise layout (testRule operand pattern) := by
  intro first second one two sessions stores
  refine (rises.value sessions stores).bind ?_
  rintro first' second' ⟨valueOne, one⟩ ⟨valueTwo, two⟩ _ sessions ⟨values, stores⟩
  have learn := fun state : FlowState => values.assign stores (FlowState.le_refl state)
  cases pattern with
  | null => exact .pure sessions ⟨learn .maybeNull, learn .notNull⟩
  | type ty => exact .pure sessions ⟨learn .notNull, stores⟩

end Conditions

end Lockstep
end NullFlow
