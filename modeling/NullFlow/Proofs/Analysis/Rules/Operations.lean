import NullFlow.Proofs.Analysis.Rules.Values
/-!
The rules for members, elements, choices, fallbacks and assignments compare.
-/

namespace NullFlow.Comparison

variable {pair : Comparison} {ty? : Option Ty} {context : Context}

section Members

variable {receiver : Part} {outline : Outline} {member : Member}

/-- The place of a member is present wherever its receiver is. -/
theorem Related.placeOfMember {first second first' second' : Session} {one two : Store}
    {tracked : Bool} {baseOne baseTwo slotOne slotTwo : Option SlotId} {name : String}
    {declared : FlowState}
    (places : pair.Related (pair.places tracked) first second (baseOne, one) (baseTwo, two))
    (resultOne : Analysis.onSlots (SlotTable.member baseOne name declared) first =
      (slotOne, first'))
    (resultTwo : Analysis.onSlots (SlotTable.member baseTwo name declared) second =
      (slotTwo, second'))
    (growsFirst : pair.Grows first first') (growsSecond : pair.Grows second second')
    (members : pair.Related (named name) first' second' slotOne slotTwo) :
    pair.Related (pair.places tracked) first' second' (slotOne, one) (slotTwo, two) := by
  have grown := places.grow growsFirst growsSecond
  have place := members.place_of_named
  refine grown.with
    ⟨place.fitsFirst, grown.fitsFirst.within, fun isTracked reachable => ?_⟩
    ⟨place.fitsSecond, grown.fitsSecond.within, fun isTracked reachable => ?_⟩
    fun known => ⟨members.alike known, (grown.alike known).2⟩
  · have present := SlotTable.member_isSome places.layoutFirst places.fitsFirst.inside name declared
      (places.fitsFirst.present isTracked reachable)
    have same := congrArg Prod.fst resultOne
    exact same ▸ present
  · have present := SlotTable.member_isSome places.layoutSecond places.fitsSecond.inside name
      declared (places.fitsSecond.present isTracked reachable)
    have same := congrArg Prod.fst resultTwo
    exact same ▸ present

/-- A member that the layout covers is read in both runs at the same place. -/
theorem memberRule_tracks (covered : pair.layout.coversMember member = true)
    (tracks : pair.Tracks outline receiver.get) :
    pair.ValueTracks outline.tracked (memberRule context receiver member) := by
  intro first second one two related
  obtain ⟨flat, closed, known⟩ := Layout.state_of_member covered
  refine (tracks.value related).bind related.reached ?_
  rintro first' second' ⟨baseOne, one⟩ ⟨baseTwo, two⟩ _ _ values
  refine .bind_dereference values ?_
  intro first'' second'' one two _ _ values
  simp only [context.memberType?_of_closed _ closed]
  refine (Runs.member values.place_of_values known).bind_eq values.reached ?_
  intro firstEnd secondEnd slotOne slotTwo resultOne resultTwo growsFirst growsSecond members
  exact .placeValue flat known members
    (values.places_of_values.placeOfMember resultOne resultTwo growsFirst growsSecond members)

/-- A member that the layout covers is written in both runs at the same place, unless only a bound
is claimed. -/
theorem memberTarget_tracks (covered : pair.layout.coversMember member = true)
    (tracks : pair.Tracks outline receiver.get)
    (settled : outline.tracked = true ∨ pair.bound = .upper) :
    pair.TargetTracks outline.tracked (memberTarget context receiver member) := by
  intro first second one two related
  obtain ⟨flat, closed, known⟩ := Layout.state_of_member covered
  refine (tracks.value related).bind related.reached ?_
  rintro first' second' ⟨baseOne, one⟩ ⟨baseTwo, two⟩ _ _ values
  refine .bind_dereference values ?_
  intro first'' second'' one two _ _ values
  simp only [context.memberType?_of_closed _ closed]
  refine (Runs.member values.place_of_values known).bind_eq values.reached ?_
  intro firstEnd secondEnd slotOne slotTwo resultOne resultTwo growsFirst growsSecond members
  have places :=
    values.places_of_values.placeOfMember resultOne resultTwo growsFirst growsSecond members
  have after := places.settle member.name settled
  have finished : pair.Runs (pair.targets outline.tracked) firstEnd secondEnd
      (pure (⟨slotOne, some member.ty, false, false⟩,
        settle firstEnd.slots member.name one slotOne))
      (pure (⟨slotTwo, some member.ty, false, false⟩,
        settle secondEnd.slots member.name two slotTwo)) :=
    .pure (after.with after.fitsFirst after.fitsSecond fun known =>
      ⟨(after.alike known).1, rfl, (after.alike known).2⟩)
  refine finished.congr ?_ ?_
  · cases slotOne <;> rfl
  · cases slotTwo <;> rfl

end Members

section Lists

/-- Every part of a list keeps to some outline. -/
def AllTrack (pair : Comparison) (parts : List Part) : Prop :=
  ∀ part ∈ parts, ∃ outline, pair.Tracks outline part.get

/-- Operands that track may be evaluated in a row. -/
theorem evaluateAll_runs {parts : List Part} (tracks : AllTrack pair parts) {first second : Session}
    {one two : Store} (related : pair.Related pair.stores first second one two) :
    pair.Runs (.both .any pair.stores) first second (evaluateAll parts one)
      (evaluateAll parts two) := by
  induction parts generalizing first second one two with
  | nil => exact .pure (related.any.both related)
  | cons part rest ih =>
      obtain ⟨outline, tracksPart⟩ := tracks part List.mem_cons_self
      refine (tracksPart.value related).bind related.reached ?_
      rintro first' second' ⟨valueOne, one⟩ ⟨valueTwo, two⟩ _ _ values
      refine (ih (fun other member => tracks other (List.mem_cons_of_mem _ member))
        values.stores_of_values).bind values.reached ?_
      rintro first'' second'' ⟨valuesOne, one⟩ ⟨valuesTwo, two⟩ _ _ after
      exact .pure (after.any.both after.right)

theorem operationRule_tracks (flatType : ty?.all Ty.isFlat = true) {operands : List Part}
    (tracks : AllTrack pair operands) : pair.ValueTracks false (operationRule ty? operands) := by
  intro first second one two related
  refine (evaluateAll_runs tracks related).bind related.reached ?_
  rintro first' second' ⟨_, one⟩ ⟨_, two⟩ _ _ after
  have stores := after.right
  exact .pure (stores.loose (stores.states _) flatType flatType fun _ => rfl)

theorem badRule_tracks {children : List Part} (tracks : AllTrack pair children) :
    pair.ValueTracks false (badRule children) := by
  intro first second one two related
  refine (evaluateAll_runs tracks related).bind related.reached ?_
  rintro first' second' ⟨_, one⟩ ⟨_, two⟩ _ _ after
  have stores := after.right
  exact .pure (stores.loose (stores.states _) rfl rfl fun _ => rfl)

end Lists

section Elements

variable {receiver position : Part} {outlineReceiver outlinePosition : Outline}

/-- The receiver of an element access beside the store after both parts. -/
theorem evaluateIndex_runs (tracksReceiver : pair.Tracks outlineReceiver receiver.get)
    (tracksPosition : pair.Tracks outlinePosition position.get) {first second : Session}
    {one two : Store} (related : pair.Related pair.stores first second one two) :
    pair.Runs (.both ⟨fun _ value => value.ty?.all Ty.isFlat = true, fun _ _ => True, fun _ => id⟩
      pair.stores) first second (evaluateIndex context receiver position one)
      (evaluateIndex context receiver position two) := by
  refine (tracksReceiver.value related).bind related.reached ?_
  rintro first' second' ⟨baseOne, one⟩ ⟨baseTwo, two⟩ _ _ bases
  refine (tracksPosition.value bases.stores_of_values).bind bases.reached ?_
  rintro first'' second'' ⟨_, one⟩ ⟨_, two⟩ growsFirst growsSecond positions
  have grown := bases.grow growsFirst growsSecond
  have values : pair.Related (pair.values false) first'' second'' (baseOne, one) (baseTwo, two) :=
    grown.with ⟨grown.fitsFirst.1, grown.fitsFirst.2.inside, positions.fitsFirst.2.within,
        fun never => by cases never⟩
      ⟨grown.fitsSecond.1, grown.fitsSecond.2.inside, positions.fitsSecond.2.within,
        fun never => by cases never⟩
      fun known => ⟨(grown.alike known).1, (positions.alike known).2⟩
  refine .bind_dereference values ?_
  intro firstEnd secondEnd one two _ _ after
  exact .pure (after.with ⟨after.fitsFirst.1.flat, after.fitsFirst.2.within⟩
    ⟨after.fitsSecond.1.flat, after.fitsSecond.2.within⟩ fun known =>
      ⟨trivial, (after.alike known).2⟩)

/-- An array is not flat, so flat code reads no elements. -/
theorem no_elements {receiverTy? : Option Ty} (flat : receiverTy?.all Ty.isFlat = true) :
    receiverTy?.bind Ty.element? = none := by
  cases receiverTy? with
  | none => rfl
  | some ty => exact Ty.element?_of_flat flat

/-- An element access of flat code tracks, at no place. -/
theorem indexRule_tracks (flatType : ty?.all Ty.isFlat = true)
    (tracksReceiver : pair.Tracks outlineReceiver receiver.get)
    (tracksPosition : pair.Tracks outlinePosition position.get) :
    pair.ValueTracks false (indexRule context ty? receiver position) := by
  intro first second one two related
  refine (evaluateIndex_runs tracksReceiver tracksPosition related).bind related.reached ?_
  rintro first' second' ⟨baseOne, one⟩ ⟨baseTwo, two⟩ _ _ after
  have stores := after.right
  have noneOne := no_elements after.fitsFirst.1
  have noneTwo := no_elements after.fitsSecond.1
  simp only [noneOne, noneTwo]
  cases ty? with
  | none => exact .pure (stores.loose (stores.states _) rfl rfl fun _ => rfl)
  | some ty => exact .pure (stores.loose (stores.states _) flatType flatType fun _ => rfl)

theorem indexTarget_tracks (tracksReceiver : pair.Tracks outlineReceiver receiver.get)
    (tracksPosition : pair.Tracks outlinePosition position.get) :
    pair.TargetTracks false (indexTarget context ty? receiver position) := by
  intro first second one two related
  refine (evaluateIndex_runs tracksReceiver tracksPosition related).bind related.reached ?_
  rintro first' second' ⟨baseOne, one⟩ ⟨baseTwo, two⟩ _ _ after
  have noneOne := no_elements after.fitsFirst.1
  have noneTwo := no_elements after.fitsSecond.1
  simp only [noneOne, noneTwo]
  refine .pure (after.with ⟨fun _ found => ?_, after.fitsFirst.2, fun never => ?_⟩
    ⟨fun _ found => ?_, after.fitsSecond.2, fun never => ?_⟩ fun known => ?_)
  · cases found
  · cases never
  · cases found
  · cases never
  · exact ⟨rfl, rfl, (after.alike known).2⟩

end Elements

section Choices

variable {left right : Part} {outlineLeft outlineRight : Outline}

/-- The state of a choice, of which one side may never be taken. -/
def chosenState (branches : Branches) (first second : Value) : FlowState :=
  match branches.whenTrue.isReachable, branches.whenFalse.isReachable with
  | true, false => first.state
  | false, true => second.state
  | false, false => .maybeNull
  | true, true => first.state.join second.state

def chosenType? (context : Context) (ty? : Option Ty) (branches : Branches) (first second : Value) :
    Option Ty :=
  match branches.whenTrue.isReachable, branches.whenFalse.isReachable with
  | true, false => first.ty?
  | false, true => second.ty?
  | false, false => none
  | true, true =>
      ((context.commonType? first.ty? second.ty?).orElse fun _ => ty?).map
        (Ty.withState (first.state.join second.state))

/-- The type of a choice is the type of one side, or the one that the front end gave it. -/
theorem all_chosenType? {test : Ty → Bool}
    (kept : ∀ (ty : Ty) (state : FlowState), test (ty.withState state) = test ty)
    (context : Context) (typed : ty?.all test = true) (branches : Branches)
    {first second : Value} (typedFirst : first.ty?.all test = true)
    (typedSecond : second.ty?.all test = true) :
    (chosenType? context ty? branches first second).all test = true := by
  unfold chosenType?
  split
  · exact typedFirst
  · exact typedSecond
  · rfl
  · rw [Ty.all_map_withState kept]
    have common := context.all_commonType? typedFirst typedSecond
    cases found : context.commonType? first.ty? second.ty? with
    | none => exact typed
    | some ty => rwa [found] at common

/-- A conditional joins the stores after its arms. -/
theorem conditionalRule_eq {condition whenTrue whenFalse : Part} (store : Store) :
    conditionalRule context ty? condition whenTrue whenFalse store = (do
      let branches ← condition.branches store
      let (first, afterFirst) ← whenTrue.value branches.whenTrue
      let (second, afterSecond) ← whenFalse.value branches.whenFalse
      let store := afterFirst.join (← Analysis.slots) afterSecond
      return (.loose (chosenState branches first second)
        (chosenType? context ty? branches first second), store)) := by
  unfold conditionalRule chosenState chosenType?
  refine congrArg _ (funext fun branches => ?_)
  cases branches.whenTrue.isReachable <;> cases branches.whenFalse.isReachable <;> rfl

/-- A conditional tracks if all three of its parts do. -/
theorem conditionalRule_tracks {condition whenTrue whenFalse : Part}
    {outlineCondition outlineTrue outlineFalse : Outline} (flatType : ty?.all Ty.isFlat = true)
    (tracksCondition : pair.Tracks outlineCondition condition.get)
    (tracksTrue : pair.Tracks outlineTrue whenTrue.get)
    (tracksFalse : pair.Tracks outlineFalse whenFalse.get) :
    pair.ValueTracks false (conditionalRule context ty? condition whenTrue whenFalse) := by
  intro first second one two related
  rw [conditionalRule_eq, conditionalRule_eq]
  refine (tracksCondition.branches related).bind related.reached ?_
  intro first1 second1 branchesOne branchesTwo _ _ branches
  refine (tracksTrue.value branches.whenTrue).bind branches.reached ?_
  rintro first2 second2 ⟨trueOne, afterOne⟩ ⟨trueTwo, afterTwo⟩ growsFirst growsSecond whenTrue
  refine (tracksFalse.value (branches.whenFalse.grow growsFirst growsSecond)).bind
    whenTrue.reached ?_
  rintro first3 second3 ⟨falseOne, lastOne⟩ ⟨falseTwo, lastTwo⟩ growsFirst' growsSecond' whenFalse
  have whenTrue := whenTrue.grow growsFirst' growsSecond'
  have branches := branches.grow (growsFirst.trans growsFirst') (growsSecond.trans growsSecond')
  refine .withSlots ?_
  have stores := whenTrue.stores_of_values.join whenFalse.stores_of_values
  have states : pair.Related pair.states first3 second3 (chosenState branchesOne trueOne falseOne)
      (chosenState branchesTwo trueTwo falseTwo) := by
    refine stores.with trivial trivial fun known => ?_
    simp only [chosenState, (branches.alike known).1.reachable,
      (branches.alike known).2.reachable]
    split
    · exact (whenTrue.alike known).1.state
    · exact (whenFalse.alike known).1.state
    · exact Bound.refl _
    · exact (whenTrue.alike known).1.state.join (whenFalse.alike known).1.state
  refine .pure (stores.loose states
    (all_chosenType? Ty.isFlat_withState context flatType branchesOne whenTrue.fitsFirst.1.flat
      whenFalse.fitsFirst.1.flat)
    (all_chosenType? Ty.isFlat_withState context flatType branchesTwo whenTrue.fitsSecond.1.flat
      whenFalse.fitsSecond.1.flat) fun known => by
    simp only [chosenType?, (branches.alike known).1.reachable,
      (branches.alike known).2.reachable]
    split
    · exact (whenTrue.alike known).1.shape
    · exact (whenFalse.alike known).1.shape
    · rfl
    · have sameTrue := (whenTrue.alike known).1.shape
      have sameFalse := (whenFalse.alike known).1.shape
      simp only [Ty.map_shape_map_withState, Ty.map_shape_orElse, context.shape_commonType?,
        sameTrue, sameFalse])

theorem map_shape_knownType? (value : Value) : (knownType? value).map Ty.shape =
    (value.ty?.map Ty.shape).filter fun ty => !(ty.isNull || ty.isError) := by
  rw [knownType?]
  cases value.ty? with
  | none => rfl
  | some ty =>
      simp only [Option.filter, Option.map_some, Ty.isNull_shape, Ty.isError_shape]
      split <;> rfl

theorem all_knownType? {test : Ty → Bool} {value : Value} (typed : value.ty?.all test = true) :
    (knownType? value).all test = true := by
  rw [knownType?]
  cases isTy : value.ty? with
  | none => rfl
  | some ty =>
      rw [isTy] at typed
      simp only [Option.filter]
      split
      · exact typed
      · rfl

/-- The type of a fallback is the type of its left side if that is known, or that of its right
side. -/
theorem all_fallbackType? {test : Ty → Bool} {left right : Value}
    (typedLeft : left.ty?.all test = true) (typedRight : right.ty?.all test = true) :
    ((knownType? left).orElse fun _ => right.ty?).all test = true := by
  have known := all_knownType? typedLeft
  cases isKnown : knownType? left with
  | none => exact typedRight
  | some ty => rwa [isKnown] at known

/-- Checks the right side of a fallback against the type of the left side. -/
def checkFallback (context : Context) (first second : Value) (span : Span) : Analysis PUnit :=
  match knownType? first, second.ty? with
  | some target, some source => context.checkShape source target span
  | _, _ => pure ⟨⟩

/-- A check of a fallback is silent: it reports and does nothing else. -/
theorem Silent.checkFallback (context : Context) (first second : Value) (span : Span) :
    Silent (checkFallback context first second span) := by
  unfold Comparison.checkFallback
  split
  · exact .checkShape _ _ _ _
  · exact .pure _

/-- A fallback evaluates its right operand only where the left may be null. -/
theorem coalesceRule_eq (store : Store) : coalesceRule context left right store = (do
    let (first, store) ← left.value store
    if left.isConstant then return (.loose first.state first.ty?, store)
    if !first.state.isMaybeNull && (knownType? first).isSome then
      Analysis.emit (.neverNull left.span context.method)
    let (second, afterRight) ← right.value (store.assign first.slot? .maybeNull)
    let store := (store.assign first.slot? .notNull).join (← Analysis.slots) afterRight
    checkFallback context first second right.span
    let ty? := (knownType? first).orElse fun _ => second.ty?
    return (.loose second.state (ty?.map (Ty.withState second.state)), store)) := by
  have checked : ∀ (first second : Value) (next : PUnit → Analysis (Value × Store)),
      (match knownType? first, second.ty? with
        | some target, some source =>
            context.checkShape source target right.span >>= next
        | _, _ => next ⟨⟩) = checkFallback context first second right.span >>= next := by
    intro first second next
    unfold checkFallback
    cases knownType? first <;> cases second.ty? <;> rfl
  simp only [← checked]
  rfl

/-- A fallback tracks if both of its operands do. -/
theorem coalesceRule_tracks (tracksLeft : pair.Tracks outlineLeft left.get)
    (tracksRight : pair.Tracks outlineRight right.get) :
    pair.ValueTracks false (coalesceRule context left right) := by
  intro first second one two related
  rw [coalesceRule_eq, coalesceRule_eq]
  refine (tracksLeft.value related).bind related.reached ?_
  rintro first1 second1 ⟨leftOne, one⟩ ⟨leftTwo, two⟩ _ _ lefts
  refine .ite (fun _ => rfl) ?_ ?_
  · exact .pure (lefts.stores_of_values.loose lefts.states_of_values lefts.fitsFirst.1.flat
      lefts.fitsSecond.1.flat fun known => (lefts.alike known).1.shape)
  refine .silent_ite lefts (.emit _) (.emit _) fun growsFirst growsSecond => ?_
  have lefts := lefts.grow growsFirst growsSecond
  have missing := lefts.place_of_values.assign (lefts.stores_of_values.states .maybeNull)
    lefts.stores_of_values
  refine (tracksRight.value missing).bind lefts.reached ?_
  rintro first2 second2 ⟨rightOne, afterOne⟩ ⟨rightTwo, afterTwo⟩ growsFirst growsSecond rights
  have lefts := lefts.grow growsFirst growsSecond
  have present := lefts.place_of_values.assign (lefts.stores_of_values.states .notNull)
    lefts.stores_of_values
  refine .withSlots ?_
  have stores := present.join rights.stores_of_values
  refine .silent_left rights (.checkFallback _ _ _ _) fun growsFirst =>
    .silent_right (rights.grow growsFirst (.refl rights.layoutSecond)) (.checkFallback _ _ _ _)
      fun growsSecond => ?_
  have finished := stores.loose rights.states_of_values
    ((Ty.all_isFlat_map_withState _ rightOne.state).trans
      (all_fallbackType? lefts.fitsFirst.1.flat rights.fitsFirst.1.flat))
    ((Ty.all_isFlat_map_withState _ rightTwo.state).trans
      (all_fallbackType? lefts.fitsSecond.1.flat rights.fitsSecond.1.flat)) fun known => by
    simp only [Ty.map_shape_map_withState, Ty.map_shape_orElse, map_shape_knownType?,
      (lefts.alike known).1.shape, (rights.alike known).1.shape]
  exact .pure (finished.grow growsFirst growsSecond)

end Choices

section Assignments

variable {target value : Part} {outlineTarget outlineValue : Outline}

/-- Checks what is assigned to a place. -/
def checkTarget (context : Context) (place : Target) (result : Value) (span : Span) :
    Analysis PUnit :=
  match place.declared? with
  | some declared =>
      if !place.implicit then context.checkConversion result declared span .assignment else return
  | none => return

theorem Silent.checkTarget (context : Context) (place : Target) (result : Value) (span : Span) :
    Silent (checkTarget context place result span) := by
  unfold Comparison.checkTarget
  split
  · exact .ite _ (.checkConversion _ _ _ _ _) (.pure _)
  · exact .pure _

/-- Records the assigned value. -/
def record (place : Target) (result : Value) (store : Store) : Analysis Store :=
  if place.weak then do
    let old := store.lookup (← Analysis.slots) place.slot?
    pure (store.assign place.slot? (old.join result.state))
  else Analysis.onSlots (store.write place.slot? result)

/-- An assignment finds its place, then evaluates its value, and then records it. -/
theorem assignRule_eq (store : Store) : assignRule context target value store = (do
    let (place, store) ← target.target store
    let (result, store) ← value.value store
    checkTarget context place result value.span
    let store ← record place result store
    return (⟨result.state, result.ty?, place.slot?, []⟩, store)) := by
  unfold assignRule checkTarget record
  refine congrArg _ (funext fun targeted => ?_)
  obtain ⟨⟨slot?, declared?, implicit, weak⟩, store⟩ := targeted
  dsimp only
  refine congrArg _ (funext fun evaluated => ?_)
  obtain ⟨result, store⟩ := evaluated
  cases declared? <;> cases implicit <;> cases weak <;> rfl

/-- Related results are recorded at related places. -/
theorem Runs.record {first second : Session} {one two : Store} {placeOne placeTwo : Target}
    {resultOne resultTwo : Value} {tracked : Bool}
    (weak : first.slots.Extends pair.target → placeOne.weak = placeTwo.weak)
    (places : pair.Related place first second placeOne.slot? placeTwo.slot?)
    (values : pair.Related (pair.values tracked) first second (resultOne, one) (resultTwo, two)) :
    pair.Runs pair.stores first second (Comparison.record placeOne resultOne one)
      (Comparison.record placeTwo resultTwo two) := by
  refine .ite weak (.withSlots (.pure (places.assign ?_ values.stores_of_values)))
    (.write places values)
  have old := places.lookup values.stores_of_values
  exact old.with trivial trivial fun known =>
    (old.alike known).join (values.states_of_values.alike known)

/-- A write does not change whether a store is reachable. -/
theorem isReachable_record {place : Target} {result : Value} (flat : result.ty?.all Ty.isFlat = true)
    (store : Store) (session : Session) :
    (record place result store session).1.isReachable = store.isReachable := by
  unfold record
  split
  · exact Store.isReachable_assign ..
  · exact isReachable_write flat place.slot? store session

/-- An assignment tracks if its target is settled and both sides track. -/
theorem assignRule_tracks (tracksTarget : pair.Tracks outlineTarget target.get)
    (settled : outlineTarget.settled = true) (tracksValue : pair.Tracks outlineValue value.get) :
    pair.ValueTracks outlineTarget.tracked (assignRule context target value) := by
  intro first second one two related
  rw [assignRule_eq, assignRule_eq]
  refine (tracksTarget.target settled related).bind related.reached ?_
  rintro first1 second1 ⟨placeOne, one⟩ ⟨placeTwo, two⟩ _ _ targets
  have places : pair.Related (pair.places outlineTarget.tracked) first1 second1
      (placeOne.slot?, one) (placeTwo.slot?, two) :=
    targets.with targets.fitsFirst targets.fitsSecond fun known =>
      ⟨(targets.alike known).1, (targets.alike known).2.2⟩
  refine (tracksValue.value places.stores_of_places).bind_eq targets.reached ?_
  rintro first2 second2 ⟨resultOne, afterOne⟩ ⟨resultTwo, afterTwo⟩ evaluatedOne evaluatedTwo
    growsFirst growsSecond values
  have places := (places.grow growsFirst growsSecond).placeStores values.stores_of_values
    (tracksValue.reachable evaluatedOne) (tracksValue.reachable evaluatedTwo)
  have targets := targets.grow growsFirst growsSecond
  refine .silent_left values (.checkTarget _ _ _ _) fun growsFirst =>
    .silent_right (values.grow growsFirst (.refl values.layoutSecond)) (.checkTarget _ _ _ _)
      fun growsSecond => ?_
  have places := places.grow growsFirst growsSecond
  have values := values.grow growsFirst growsSecond
  have targets := targets.grow growsFirst growsSecond
  refine (Runs.record (fun known => (targets.alike known).2.1) places.place_of_places
    values).bind_eq values.reached ?_
  intro first3 second3 lastOne lastTwo recordedOne recordedTwo growsFirst growsSecond stores
  have values := values.grow growsFirst growsSecond
  have places := (places.grow growsFirst growsSecond).placeStores stores
    (fun reachable => ?_) (fun reachable => ?_)
  · exact .pure (places.with ⟨⟨places.fitsFirst.inside, values.fitsFirst.1.flat, by simp⟩,
        places.fitsFirst⟩
      ⟨⟨places.fitsSecond.inside, values.fitsSecond.1.flat, by simp⟩, places.fitsSecond⟩
      fun known => ⟨⟨(places.alike known).1, (values.alike known).1.state,
        (values.alike known).1.shape, .nil⟩, (places.alike known).2⟩)
  · have kept := congrArg (fun result => result.1.isReachable) recordedOne
    exact (isReachable_record values.fitsFirst.1.flat _ _).symm.trans (kept.trans reachable)
  · have kept := congrArg (fun result => result.1.isReachable) recordedTwo
    exact (isReachable_record values.fitsSecond.1.flat _ _).symm.trans (kept.trans reachable)

end Assignments

end NullFlow.Comparison
