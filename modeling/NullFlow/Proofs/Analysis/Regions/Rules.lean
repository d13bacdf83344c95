import NullFlow.Analysis.Rules
import NullFlow.Proofs.Analysis.Regions.Actions
import NullFlow.Proofs.Analysis.Rules.Operations
/-!
The rules of expressions keep to a region if the meanings of the parts do. Variables and members have
to be among those of the region, and so have the members that an assignment invalidates.
-/

namespace NullFlow

namespace Region

variable {region : Region} {context : Context} {session : Session} {store : Store} {ty? : Option Ty}

section Values

/-- Finding a variable of the region or `this` adds its slot. -/
theorem intern_runs {key : SlotKey} (noParent : key.parent? = none)
    (reads : ∀ id, key = .localVar id → region.Reads id) (declared : FlowState) :
    region.Runs context session (Analysis.onSlots (SlotTable.intern key declared))
      fun table slot => region.Has table (some slot) :=
  (Runs.onSlots (allows_root declared noParent reads)).weaken fun _ _ place => has_some place

/-- The slot of a variable that may be named is a place of the region. -/
theorem variable_runs {id : LocalId} (reads : region.Reads id) (declared : FlowState) :
    region.Runs context session (Analysis.onSlots (SlotTable.intern (.localVar id) declared))
      fun table slot => region.Has table (some slot) :=
  intern_runs rfl (fun _ same => SlotKey.localVar.inj same ▸ reads) declared

/-- Reading a variable that may be named yields a known value. -/
theorem readRule_admits {source : Variable} (reads : region.Reads source.id) :
    region.Admits context (readRule source) region.ValueFits := by
  intro session store holds
  apply (variable_runs reads source.ty.declaredState).bind
  intro slot after continues has
  apply Runs.slots.bind
  intro table last continuesLast _
  have known := (Knows.mk has (region.holds_grow holds continues.slots)).grow continuesLast.slots
  exact .pure ⟨known, region.plants_nil⟩

theorem thisRule_admits : region.Admits context (thisRule context ty?) region.ValueFits := by
  intro session store holds
  apply (intern_runs rfl (fun _ same => by cases same) .notNull).bind
  intro slot after continues has
  exact .pure ⟨⟨has, region.holds_grow holds continues.slots⟩, region.plants_nil⟩

theorem loose_admits (state : FlowState) (valueTy? : Option Ty) :
    region.Admits context (fun store => return (Value.loose state valueTy?, store))
      region.ValueFits :=
  fun _ _ holds => .pure (loose_fits _ _ holds)

theorem castRule_admits {operand : Part} (ofOperand : region.Covers context operand.get) :
    region.Admits context (castRule ty? operand) region.ValueFits := by
  intro session store holds
  apply (ofOperand.value holds).bind
  intro inner after _ fits
  exact .pure ⟨fits.known, fits.plants⟩

/-- A dereference narrows the receiver where the receiver is a place. -/
theorem dereference_runs (receiver : Value) (span : Span)
    (known : region.Knows session.slots receiver.slot? store) :
    region.Runs context session (context.dereference receiver span store) region.Holds := by
  rw [Context.dereference]
  cases store.isReachable with
  | false => exact .pure known.store
  | true =>
      simp only [Bool.not_true, Bool.false_eq_true, if_false]
      apply Runs.check _ (.emit _)
      intro after continues
      exact .pure ((known.grow continues.slots).assign .notNull)

/-- Reading a place declares its slot anew, which a region allows of its places. -/
theorem placeValue_runs (declared : Ty) {slot? : Option SlotId} (store : Store)
    (has : region.Has session.slots slot?) :
    region.Runs context session (placeValue declared slot? store)
      fun table value => region.Has table value.slot? ∧ region.Plants value.seeds := by
  cases slot? with
  | none => exact .pure ⟨region.has_none _, region.plants_nil⟩
  | some slot =>
      have redeclared := allows_redeclare (has.place slot rfl) declared.declaredState
      apply (Runs.onSlots redeclared).bind
      intro _ after continues _
      apply Runs.slots.bind
      intro table last continuesLast _
      exact .pure ⟨(has.grow continues.slots).grow continuesLast.slots, region.plants_nil⟩

/-- The value of a place that was just found. -/
theorem valueAt_runs (declared : Ty) {slot? : Option SlotId}
    (known : region.Knows session.slots slot? store) :
    region.Runs context session (do return (← placeValue declared slot? store, store))
      region.ValueFits := by
  apply (placeValue_runs declared store known.place).bind
  intro value after continues found
  exact .pure ⟨⟨found.1, region.holds_grow known.store continues.slots⟩, found.2⟩

/-- A member that may be named is read from a receiver that keeps to the region. -/
theorem memberRule_admits {receiver : Part} (ofReceiver : region.Covers context receiver.get)
    {member : Member} (named : region.Names member.name) :
    region.Admits context (memberRule context receiver member) region.ValueFits := by
  intro session store holds
  apply (ofReceiver.value holds).bind
  intro base after _ fits
  apply (dereference_runs base.1 receiver.span fits.known).bind
  intro store checked continuesChecked holdsChecked
  split
  · exact .pure (loose_fits _ _ holdsChecked)
  · have has := fits.known.place.grow continuesChecked.slots
    apply (Runs.onSlots (allows_member has named _)).bind
    intro slot? last continuesLast hasSlot
    exact valueAt_runs _ ⟨hasSlot, region.holds_grow holdsChecked continuesLast.slots⟩

/-- Both parts of an element access are evaluated before the array is dereferenced. -/
theorem evaluateIndex_admits {receiver position : Part}
    (ofReceiver : region.Covers context receiver.get)
    (ofPosition : region.Covers context position.get) :
    region.Admits context (evaluateIndex context receiver position) region.ValueFits := by
  intro session store holds
  apply (ofReceiver.value holds).bind
  intro base after _ fits
  apply (ofPosition.value fits.known.store).bind
  intro index indexed continuesIndex fitsIndex
  have has := fits.known.place.grow continuesIndex.slots
  apply (dereference_runs base.1 receiver.span ⟨has, fitsIndex.known.store⟩).bind
  intro store checked continuesChecked holdsChecked
  exact .pure ⟨⟨has.grow continuesChecked.slots, holdsChecked⟩, fits.plants⟩

/-- An element is read from an array that keeps to the region. -/
theorem indexRule_admits {receiver position : Part} (ofReceiver : region.Covers context receiver.get)
    (ofPosition : region.Covers context position.get) :
    region.Admits context (indexRule context ty? receiver position) region.ValueFits := by
  intro session store holds
  apply (evaluateIndex_admits ofReceiver ofPosition holds).bind
  intro base after _ fits
  dsimp only
  split
  · apply (Runs.onSlots (allows_element fits.known.place _)).bind
    intro slot? last continuesLast hasSlot
    exact valueAt_runs _ ⟨hasSlot, region.holds_grow fits.known.store continuesLast.slots⟩
  · split <;> exact .pure (loose_fits _ _ fits.known.store)

/-- Operands that keep to the region may be evaluated in a row. -/
theorem evaluateAll_admits : ∀ {parts : List Part},
    (∀ part ∈ parts, region.Covers context part.get) →
    region.Admits context (evaluateAll parts) fun table result => region.Holds table result.2
  | [], _ => fun _ _ holds => .pure holds
  | part :: rest, each => by
      intro session store holds
      apply ((each part List.mem_cons_self).value holds).bind
      intro first after _ fits
      have ofRest := evaluateAll_admits fun later member =>
        each later (List.mem_cons_of_mem _ member)
      apply (ofRest fits.known.store).bind
      intro others last _ holdsLast
      exact .pure holdsLast

/-- The items of an array that keep to the region may fill it in a row. -/
theorem fillArray_admits (element : Ty) : ∀ {items : List Part},
    (∀ part ∈ items, region.Covers context part.get) →
    region.Admits context (fillArray context element items) region.Holds
  | [], _ => fun _ _ holds => .pure holds
  | part :: rest, each => by
      intro session store holds
      apply ((each part List.mem_cons_self).value holds).bind
      intro first after _ fits
      apply (Runs.silent (.checkConversion _ _ _ _ _)).bind
      intro _ checked continuesChecked _
      have ofRest := fillArray_admits element fun later member =>
        each later (List.mem_cons_of_mem _ member)
      exact ofRest (region.holds_grow fits.known.store continuesChecked.slots)

theorem arrayRule_admits (element? : Option Ty) {items : List Part}
    (each : ∀ part ∈ items, region.Covers context part.get) :
    region.Admits context (arrayRule context element? items) region.ValueFits := by
  intro session store holds
  cases element? with
  | some element =>
      apply (fillArray_admits element each holds).bind
      intro store after _ filled
      exact .pure (loose_fits _ _ filled)
  | none =>
      apply (evaluateAll_admits each holds).bind
      intro values after _ evaluated
      dsimp only
      split
      · exact .pure (loose_fits _ _ evaluated)
      · exact .pure (loose_fits _ _ evaluated)
      · refine (Runs.silent (Comparison.Silent.forM ?_ (items.zip values.1))).bind ?_
        · intro entry
          split
          · exact .checkShape _ _ _ _
          · exact .pure _
        · intro _ checked continuesChecked _
          exact .pure (loose_fits _ _ (region.holds_grow evaluated continuesChecked.slots))

theorem operationRule_admits {operands : List Part}
    (each : ∀ part ∈ operands, region.Covers context part.get) :
    region.Admits context (operationRule ty? operands) region.ValueFits := by
  intro session store holds
  apply (evaluateAll_admits each holds).bind
  intro values after _ evaluated
  exact .pure (loose_fits _ _ evaluated)

theorem badRule_admits {children : List Part}
    (each : ∀ part ∈ children, region.Covers context part.get) :
    region.Admits context (badRule children) region.ValueFits := by
  intro session store holds
  apply (evaluateAll_admits each holds).bind
  intro values after _ evaluated
  exact .pure (loose_fits _ _ evaluated)

/-- A suppressed value keeps the place of its operand. -/
theorem suppressRule_admits {operand : Part} (ofOperand : region.Covers context operand.get) :
    region.Admits context (suppressRule operand) region.ValueFits := by
  intro session store holds
  apply (ofOperand.value holds).bind
  intro inner after _ fits
  exact .pure ⟨⟨fits.known.place, fits.known.assign .notNull⟩, fits.plants⟩

end Values

section Targets

/-- A variable that may be named is a place to write to. -/
theorem variableTarget_admits {source : Variable} (reads : region.Reads source.id) :
    region.Admits context (variableTarget source) region.TargetFits := by
  intro session store holds
  apply (variable_runs reads source.ty.declaredState).bind
  intro slot after continues has
  exact .pure ⟨has, region.holds_grow holds continues.slots⟩

/-- Finds the place of a member. The store is that before the members of the name are given up. -/
def memberPlace (context : Context) (receiver : Part) (member : Member) (store : Store) :
    Analysis (Target × Store) := do
  let (base, store) ← receiver.value store
  let store ← context.dereference base receiver.span store
  match context.memberType? base.ty? member with
  | none => return (⟨none, none, false, false⟩, store)
  | some declared => do
      let slot? ← Analysis.onSlots
        (SlotTable.member base.slot? member.name declared.declaredState)
      return (⟨slot?, some declared, false, false⟩, store)

variable (context) in
/-- All members of the name are invalidated if the place has no slot. -/
theorem memberTarget_eq (receiver : Part) (member : Member) (store : Store) (session : Session) :
    let placed := memberPlace context receiver member store session
    memberTarget context receiver member store session =
      ((placed.1.1, Comparison.settle placed.2.slots member.name placed.1.2 placed.1.1.slot?),
        placed.2) := by
  simp only [memberTarget, memberPlace, bind, StateT.bind]
  generalize receiver.value store session = evaluated
  obtain ⟨⟨base, store⟩, session⟩ := evaluated
  dsimp only
  generalize context.dereference base receiver.span store session = dereferenced
  obtain ⟨store, session⟩ := dereferenced
  dsimp only
  cases context.memberType? base.ty? member with
  | none => rfl
  | some declared =>
      dsimp only [StateT.bind]
      generalize Analysis.onSlots (SlotTable.member base.slot? member.name declared.declaredState)
        session = found
      obtain ⟨slot?, session⟩ := found
      cases slot? <;> rfl

variable (context) in
/-- The place of a member has no slot if the type of the member is unknown or if the receiver is not
stable. -/
theorem memberPlace_slot? (receiver : Part) (member : Member) (store : Store) (session : Session) :
    let base := receiver.value store session
    (memberPlace context receiver member store session).1.1.slot? = none ↔
      context.memberType? base.1.1.ty? member = none ∨ ¬base.2.slots.Stable base.1.1.slot? := by
  intro base
  have silent := Comparison.Silent.dereference context base.1.1 receiver.span base.1.2 base.2
  have placed : memberPlace context receiver member store session = (do
      let store ← context.dereference base.1.1 receiver.span base.1.2
      match context.memberType? base.1.1.ty? member with
      | none => return (⟨none, none, false, false⟩, store)
      | some declared => do
          let slot? ← Analysis.onSlots
            (SlotTable.member base.1.1.slot? member.name declared.declaredState)
          return (⟨slot?, some declared, false, false⟩, store) : Analysis (Target × Store)) base.2 := rfl
  rw [placed, ← silent.1]
  cases context.memberType? base.1.1.ty? member with
  | none => exact ⟨fun _ => .inl rfl, fun _ => rfl⟩
  | some declared =>
      refine (SlotTable.member_eq_none base.1.1.slot? member.name declared.declaredState
        _).trans ⟨.inr, ?_⟩
      rintro (unknown | unstable)
      · cases unknown
      · exact unstable

/-- A member that may be named is a place to write to, if its receiver has one. -/
theorem memberPlace_admits {receiver : Part} (ofReceiver : region.Covers context receiver.get)
    {member : Member} (named : region.Names member.name) :
    region.Admits context (memberPlace context receiver member) region.TargetFits := by
  intro session store holds
  apply (ofReceiver.value holds).bind
  intro base after _ fits
  apply (dereference_runs base.1 receiver.span fits.known).bind
  intro store checked continuesChecked holdsChecked
  split
  · exact .pure (knows_none holdsChecked)
  · have has := fits.known.place.grow continuesChecked.slots
    apply (Runs.onSlots (allows_member has named _)).bind
    intro slot? last continuesLast hasSlot
    exact .pure ⟨hasSlot, region.holds_grow holdsChecked continuesLast.slots⟩

/-- Where control does not come, no place is found and nothing is lost. -/
theorem memberTarget_unreachable {receiver : Part} (member : Member) {session : Session}
    (unreached : receiver.value .unreachable session = ((.unresolved, .unreachable), session)) :
    memberTarget context receiver member .unreachable session =
      ((⟨none, context.memberType? none member, false, false⟩, .unreachable), session) := by
  have lost : Store.invalidate session.slots member.name .unreachable = .unreachable :=
    Comparison.invalidate_unreachable session.slots member.name
  simp only [memberTarget, bind, StateT.bind, unreached]
  cases isMember : context.memberType? none member with
  | none =>
      simp only [Value.unresolved, Value.loose, isMember]
      exact congrArg (fun store => ((_, store), session)) lost
  | some declared =>
      simp only [Value.unresolved, Value.loose, isMember]
      exact congrArg (fun store => ((_, store), session)) lost

/-- The members of the name have to be among those of the region only where the assignment finds no
slot. -/
theorem memberTarget_admits {receiver : Part} (ofReceiver : region.Covers context receiver.get)
    (unreached : ∀ session,
      receiver.value .unreachable session = ((.unresolved, .unreachable), session))
    {member : Member} (named : region.Names member.name)
    (loses : ∀ ⦃session : Session⦄ ⦃store : Store⦄, store.Live → region.Valid session.slots →
      (memberTarget context receiver member store session).1.1.slot? = none →
      region.Loses member.name) :
    region.Admits context (memberTarget context receiver member) region.TargetFits := by
  intro session store holds valid
  cases isStore : store with
  | unreachable =>
      rw [memberTarget_unreachable member (unreached session)]
      exact ⟨.refl session, knows_none (region.unreachable _)⟩
  | reachable facts =>
      rw [← isStore]
      have live : store.Live := isStore ▸ rfl
      obtain ⟨continues, known⟩ := memberPlace_admits ofReceiver named holds valid
      have lost : (memberTarget context receiver member store session).1.1.slot? = none →
          region.Loses member.name := loses live valid
      rw [memberTarget_eq] at lost ⊢
      refine ⟨continues, known.place, ?_⟩
      generalize memberPlace context receiver member store session = placed at *
      obtain ⟨⟨place, store⟩, session⟩ := placed
      cases isPlace : place.slot? with
      | some slot => exact known.store
      | none =>
          exact region.invalidate (lost isPlace) (region.valid_grow valid continues.slots)
            known.store

/-- An element is a place to write to, if its array has one. -/
theorem indexTarget_admits {receiver position : Part}
    (ofReceiver : region.Covers context receiver.get)
    (ofPosition : region.Covers context position.get) :
    region.Admits context (indexTarget context ty? receiver position) region.TargetFits := by
  intro session store holds
  apply (evaluateIndex_admits ofReceiver ofPosition holds).bind
  intro base after _ fits
  dsimp only
  split
  · apply (Runs.onSlots (allows_element fits.known.place _)).bind
    intro slot? last continuesLast hasSlot
    exact .pure ⟨hasSlot, region.holds_grow fits.known.store continuesLast.slots⟩
  · exact .pure (knows_none fits.known.store)

end Targets

section Assignments

/-- Writing the result of an assignment touches the target and what is derived from it. -/
theorem record_runs (writes : region.Writes) (place : Target) {result : Value}
    (plants : region.Plants result.seeds) (known : region.Knows session.slots place.slot? store) :
    region.Runs context session (Comparison.record place result store) region.Holds := by
  unfold Comparison.record
  split
  · apply Runs.slots.bind
    intro table after continues _
    exact .pure ((known.grow continues.slots).assign _)
  · exact .onSlots (allows_write writes known.place plants known.store)

/-- An assignment keeps to the region if values may be written and both sides keep to it. -/
theorem assignRule_admits (writes : region.Writes) {target value : Part}
    (ofTarget : region.Admits context target.get.target region.TargetFits)
    (ofValue : region.Covers context value.get) :
    region.Admits context (assignRule context target value) region.ValueFits := by
  intro session store holds
  rw [Comparison.assignRule_eq]
  apply (ofTarget holds).bind
  intro place after _ knownPlace
  apply (ofValue.value knownPlace.store).bind
  intro result evaluated continuesResult fitsResult
  apply (Runs.silent (.checkTarget _ place.1 result.1 value.span)).bind
  intro _ checked continuesChecked _
  have continues := continuesResult.trans continuesChecked
  have has := knownPlace.place.grow continues.slots
  have recording : region.Knows checked.slots place.1.slot? result.2 :=
    ⟨has, region.holds_grow fitsResult.known.store continuesChecked.slots⟩
  apply (record_runs writes place.1 fitsResult.plants recording).bind
  intro store last continuesLast recorded
  exact .pure ⟨⟨has.grow continuesLast.slots, recorded⟩, region.plants_nil⟩

end Assignments

section Conditions

variable {left right operand : Part}

theorem literalBranches_admits (value : Literal) :
    region.Admits context (fun store => return literalBranches value store) region.BranchesFit := by
  intro session store holds
  apply Runs.pure
  have unreachable := region.unreachable session.slots
  match value with
  | .bool true => exact ⟨holds, unreachable⟩
  | .bool false => exact ⟨unreachable, holds⟩
  | .null => exact ⟨holds, holds⟩
  | .number _ => exact ⟨holds, holds⟩
  | .string _ => exact ⟨holds, holds⟩

/-- A negation swaps the branches of its operand. -/
theorem notRule_admits (ofOperand : region.Covers context operand.get) :
    region.Admits context (notRule operand) region.BranchesFit := by
  intro session store holds
  apply (ofOperand.branches holds).bind
  intro branches after _ fits
  exact .pure ⟨fits.whenFalse, fits.whenTrue⟩

/-- The branch where a conjunction fails joins those where an operand fails. -/
theorem andRule_admits (ofLeft : region.Covers context left.get)
    (ofRight : region.Covers context right.get) :
    region.Admits context (andRule left right) region.BranchesFit := by
  intro session store holds
  apply (ofLeft.branches holds).bind
  intro first after _ fitsFirst
  apply (ofRight.branches fitsFirst.whenTrue).bind
  intro second last continuesLast fitsSecond
  have whenFalse := region.holds_grow fitsFirst.whenFalse continuesLast.slots
  apply Runs.slots.bind
  intro table final continues _
  exact .pure ⟨region.holds_grow fitsSecond.whenTrue continues.slots,
    region.holds_grow (region.join table whenFalse fitsSecond.whenFalse) continues.slots⟩

/-- The branch where a disjunction holds joins those where an operand holds. -/
theorem orRule_admits (ofLeft : region.Covers context left.get)
    (ofRight : region.Covers context right.get) :
    region.Admits context (orRule left right) region.BranchesFit := by
  intro session store holds
  apply (ofLeft.branches holds).bind
  intro first after _ fitsFirst
  apply (ofRight.branches fitsFirst.whenFalse).bind
  intro second last continuesLast fitsSecond
  have whenTrue := region.holds_grow fitsFirst.whenTrue continuesLast.slots
  apply Runs.slots.bind
  intro table final continues _
  exact .pure ⟨region.holds_grow (region.join table whenTrue fitsSecond.whenTrue) continues.slots,
    region.holds_grow fitsSecond.whenFalse continues.slots⟩

/-- A comparison with null narrows only the places of the values compared. -/
theorem compareValues_fit {table : SlotTable} (left right : Part) {first second : Value}
    (knownFirst : region.Knows table first.slot? store)
    (knownSecond : region.Knows table second.slot? store) :
    region.BranchesFit table (compareValues left right first second store) := by
  unfold compareValues
  split
  · exact ⟨knownFirst.assign _, knownFirst.assign _⟩
  · exact ⟨knownSecond.assign _, knownSecond.assign _⟩
  · refine ⟨?_, knownFirst.store⟩
    have equal : region.Holds table (if second.state.isMaybeNull then store
        else store.assign first.slot? .notNull) := by
      split
      · exact knownFirst.store
      · exact knownFirst.assign _
    dsimp only
    split
    · exact equal
    · exact knownSecond.place.assign equal _
  · exact ⟨knownFirst.store, knownFirst.store⟩

/-- A comparison evaluates both operands before it narrows either. -/
theorem equalityRule_admits (negated : Bool) (ofLeft : region.Covers context left.get)
    (ofRight : region.Covers context right.get) :
    region.Admits context (equalityRule negated left right) region.BranchesFit := by
  intro session store holds
  apply (ofLeft.value holds).bind
  intro first after _ fitsFirst
  apply (ofRight.value fitsFirst.known.store).bind
  intro second last continuesLast fitsSecond
  have fits := compareValues_fit left right
    ⟨fitsFirst.known.place.grow continuesLast.slots, fitsSecond.known.store⟩ fitsSecond.known
  cases negated with
  | false => exact .pure fits
  | true => exact .pure ⟨fits.whenFalse, fits.whenTrue⟩

/-- A pattern narrows the place of the value tested and no other. -/
theorem testRule_admits (pattern : Pattern) (ofOperand : region.Covers context operand.get) :
    region.Admits context (testRule operand pattern) region.BranchesFit := by
  intro session store holds
  apply (ofOperand.value holds).bind
  intro inner after _ fits
  cases pattern with
  | null => exact .pure ⟨fits.known.assign _, fits.known.assign _⟩
  | type ty => exact .pure ⟨fits.known.assign _, fits.known.store⟩

/-- Both arms of a conditional start from a branch of the condition, and their ends are joined. -/
theorem conditionalRule_admits {condition whenTrue whenFalse : Part}
    (ofCondition : region.Covers context condition.get)
    (ofTrue : region.Covers context whenTrue.get) (ofFalse : region.Covers context whenFalse.get) :
    region.Admits context (conditionalRule context ty? condition whenTrue whenFalse)
      region.ValueFits := by
  intro session store holds
  apply (ofCondition.branches holds).bind
  intro branches decided _ fits
  apply (ofTrue.value fits.whenTrue).bind
  intro first after continuesFirst fitsFirst
  apply (ofFalse.value (region.holds_grow fits.whenFalse continuesFirst.slots)).bind
  intro second last continuesSecond fitsSecond
  have afterFirst := region.holds_grow fitsFirst.known.store continuesSecond.slots
  apply Runs.slots.bind
  intro table final continues _
  have joined := region.holds_grow (region.join table afterFirst fitsSecond.known.store)
    continues.slots
  apply Runs.pure
  dsimp only
  split <;> exact loose_fits _ _ joined

/-- The fallback of an operand that may be null starts where the operand is null. -/
theorem coalesceRule_admits (ofLeft : region.Covers context left.get)
    (ofRight : region.Covers context right.get) :
    region.Admits context (coalesceRule context left right) region.ValueFits := by
  intro session store holds
  apply (ofLeft.value holds).bind
  intro first after _ fits
  dsimp only
  split
  · exact .pure (loose_fits _ _ fits.known.store)
  · apply Runs.check _ (.emit _)
    intro noted continuesNoted
    have known := fits.known.grow continuesNoted.slots
    apply (ofRight.value (known.assign .maybeNull)).bind
    intro second last continuesSecond fitsSecond
    have whenPresent := (known.grow continuesSecond.slots).assign .notNull
    apply Runs.slots.bind
    intro table final continues _
    have joined := region.holds_grow (region.join table whenPresent fitsSecond.known.store)
      continues.slots
    split
    · apply (Runs.silent (.checkShape _ _ _ _)).bind
      intro _ checked continuesChecked _
      exact .pure (loose_fits _ _ (region.holds_grow joined continuesChecked.slots))
    · exact .pure (loose_fits _ _ joined)

end Conditions

section Meanings

variable {span : Span}

/-- A rule need not keep to the region where nothing is reached. -/
theorem Admits.guard {rule : Store → Analysis (Value × Store)}
    (admits : region.Admits context rule region.ValueFits) :
    region.Admits context (Meaning.guardValue rule) region.ValueFits := by
  intro session store holds
  rw [Meaning.guardValue]
  split
  · exact admits holds
  · exact .pure (loose_fits _ _ holds)

theorem Admits.guardBranches {rule : Store → Analysis Branches}
    (admits : region.Admits context rule region.BranchesFit) :
    region.Admits context (Meaning.guardBranches rule) region.BranchesFit := by
  intro session store holds
  rw [Meaning.guardBranches]
  split
  · exact admits holds
  · exact .pure ⟨holds, holds⟩

theorem Admits.plainTarget {rule : Store → Analysis (Value × Store)}
    (admits : region.Admits context rule region.ValueFits) :
    region.Admits context (Meaning.plainTarget ty? rule) region.TargetFits := by
  intro session store holds
  apply (admits holds).bind
  intro result after _ fits
  exact .pure fits.known

/-- A node given by the rule of its value is covered if the rule keeps to the region. -/
theorem covers_ofValue {rule : Store → Analysis (Value × Store)}
    (admits : region.Admits context rule region.ValueFits) :
    region.Covers context (Meaning.ofValue span ty? rule) where
  value := admits.guard
  branches := by
    apply Admits.guardBranches
    intro session store holds
    apply (admits holds).bind
    intro result after _ fits
    exact .pure ⟨fits.known.store, fits.known.store⟩
  lambda analyze isLambda := by cases isLambda

/-- A node given by the rule of its branches is covered if the rule keeps to the region. -/
theorem covers_ofBranches {rule : Store → Analysis Branches}
    (admits : region.Admits context rule region.BranchesFit) :
    region.Covers context (Meaning.ofBranches span ty? rule) where
  value := by
    apply Admits.guard
    intro session store holds
    apply (admits holds).bind
    intro branches after _ fits
    apply Runs.slots.bind
    intro table last continues _
    exact .pure (loose_fits _ _
      (region.holds_grow (region.join table fits.whenTrue fits.whenFalse) continues.slots))
  branches := admits.guardBranches
  lambda analyze isLambda := by cases isLambda

theorem Covers.marked {meaning : Meaning} (covers : region.Covers context meaning)
    (isNull isConstant : Bool) : region.Covers context { meaning with isNull, isConstant } :=
  ⟨covers.value, covers.branches, covers.lambda⟩

theorem Covers.withTarget {meaning : Meaning} (covers : region.Covers context meaning)
    (target : Store → Analysis (Target × Store)) :
    region.Covers context { meaning with target } :=
  ⟨covers.value, covers.branches, covers.lambda⟩

theorem Covers.withBranches {meaning : Meaning} (covers : region.Covers context meaning)
    {rule : Store → Analysis Branches}
    (admits : region.Admits context rule region.BranchesFit) :
    region.Covers context { meaning with branches := Meaning.guardBranches rule } :=
  ⟨covers.value, admits.guardBranches, covers.lambda⟩

end Meanings

end Region

end NullFlow
