import NullFlow.Proofs.Analysis.Lockstep.Actions
/-!
Slots, writes and checks in two runs in lockstep.
-/

namespace NullFlow

/-- What may be null in a smaller state may be null in a larger one. -/
theorem FlowState.isMaybeNull_mono {first second : FlowState} (below : first ≤ second)
    (mayBeNull : first.isMaybeNull = true) : second.isMaybeNull = true := by
  cases first with
  | notNull => cases mayBeNull
  | maybeNull =>
      obtain rfl : FlowState.maybeNull = second := below
      rfl

namespace Lockstep

variable {layout : Layout} {context : Context} {first second : Session} {one two : Store}
variable {valueOne valueTwo : Value}

section Slots

/-- In lockstep both runs find or make the same slot for a variable. -/
theorem Runs.intern (sessions : Lockstep layout first second) {key : SlotKey}
    {declared : FlowState} (known : layout.stateOf key = some declared) (root : key.parent? = none) :
    Runs layout (same fun table slot => slot < table.size) first second
      (Analysis.onSlots (SlotTable.intern key declared))
      (Analysis.onSlots (SlotTable.intern key declared)) := by
  have alone : (Comparison.ofLayout layout .upper false).Alone Comparison.slot first
      (Analysis.onSlots (SlotTable.intern key declared)) :=
    Comparison.intern_alone sessions.fits known (by simp [root])
  exact .onSlots sessions alone

/-- In lockstep both runs find or make the same slot for a member. -/
theorem Runs.member (sessions : Lockstep layout first second) {receiver? : Option SlotId}
    (inside : ∀ slot : Nat, receiver? = some slot → slot < first.slots.size) {name : String}
    {declared : FlowState} (known : layout.memberState name = declared) :
    Runs layout (same (Comparison.named name).fits) first second
      (Analysis.onSlots (SlotTable.member receiver? name declared))
      (Analysis.onSlots (SlotTable.member receiver? name declared)) := by
  have alone : (Comparison.ofLayout layout .upper false).Alone (Comparison.named name) first
      (Analysis.onSlots (SlotTable.member receiver? name declared)) :=
    Comparison.member_alone sessions.fits inside known
  exact .onSlots sessions alone

theorem inside_of_named {name : String} {table : SlotTable} {slot? : Option SlotId}
    (named : (Comparison.named name).fits table slot?) :
    ∀ slot : Nat, slot? = some slot → slot < table.size := by
  intro slot found
  obtain ⟨parent, isKey⟩ := named slot found
  exact SlotTable.lt_size_of_key? isKey

/-- The place of a slot that the table has. -/
theorem inside_some {table : SlotTable} {slot : SlotId} (inside : slot < table.size) :
    ∀ other : Nat, some slot = some other → other < table.size :=
  fun _ same => Option.some.inj same ▸ inside

end Slots

section Writes

/-- Both runs follow the same path of members. -/
theorem Runs.follow (path : List (String × FlowState))
    (fits : ∀ step ∈ path, layout.memberState step.1 = step.2) {first second : Session}
    {slot? : Option SlotId} (sessions : Lockstep layout first second)
    (inside : ∀ slot : Nat, slot? = some slot → slot < first.slots.size) :
    Runs layout (same Comparison.place.fits) first second
      (path.foldlM (fun place step => Analysis.onSlots (SlotTable.member place step.1 step.2)) slot?)
      (path.foldlM (fun place step => Analysis.onSlots (SlotTable.member place step.1 step.2))
        slot?) := by
  induction path generalizing first second slot? with
  | nil => exact .pure sessions ⟨rfl, inside⟩
  | cons step rest ih =>
      rw [List.foldlM_cons]
      refine (Runs.member sessions inside (fits step List.mem_cons_self)).bind ?_
      rintro first' second' next _ _ sessions ⟨rfl, named⟩
      exact ih (fun later member => fits later (List.mem_cons_of_mem _ member)) sessions
        (inside_of_named named)

/-- Seeds for the same member are planted in lockstep if their states are ordered. -/
theorem Runs.plant (sessions : Lockstep layout first second)
    (stores : one.Ordered first.slots two) {slot : SlotId} (inside : slot < first.slots.size)
    {seedOne seedTwo : Seed} (fits : seedOne.Fits layout) (alike : seedOne.Alike .upper seedTwo) :
    Runs layout Store.Ordered first second (Analysis.onSlots (Store.plant slot one seedOne))
      (Analysis.onSlots (Store.plant slot two seedTwo)) := by
  obtain ⟨path, stateOne⟩ := seedOne
  obtain ⟨path', stateTwo⟩ := seedTwo
  obtain ⟨samePath, below⟩ := alike
  change path = path' at samePath
  subst samePath
  simp only [Store.plant, Comparison.onSlots_bind, Comparison.onSlots_foldlM]
  refine (Runs.follow path fits sessions (inside_some inside)).bind ?_
  rintro first' second' place _ extended sessions ⟨rfl, inside⟩
  exact .pure sessions ((stores.grow extended).assign inside below)

/-- All seeds of a new object are planted in lockstep. -/
theorem Runs.plantAll {slot : SlotId} {seedsOne seedsTwo : List Seed}
    (fits : ∀ seed ∈ seedsOne, seed.Fits layout)
    (alike : List.Forall₂ (Seed.Alike .upper) seedsOne seedsTwo) {first second : Session}
    {one two : Store} (sessions : Lockstep layout first second)
    (stores : one.Ordered first.slots two) (inside : slot < first.slots.size) :
    Runs layout Store.Ordered first second
      (seedsOne.foldlM (fun store seed => Analysis.onSlots (Store.plant slot store seed)) one)
      (seedsTwo.foldlM (fun store seed => Analysis.onSlots (Store.plant slot store seed)) two) := by
  induction alike generalizing first second one two with
  | nil => exact .pure sessions stores
  | cons alikeHead _ ih =>
      rw [List.foldlM_cons, List.foldlM_cons]
      refine (Runs.plant sessions stores inside (fits _ List.mem_cons_self) alikeHead).bind ?_
      intro first' second' one two extended sessions stores
      exact ih (fun seed member => fits seed (List.mem_cons_of_mem _ member)) sessions stores
        (Nat.lt_of_lt_of_le inside extended.size_le)

/-- Ordered values are written to the same place in lockstep. -/
theorem Runs.write (sessions : Lockstep layout first second) (stores : one.Ordered first.slots two)
    (values : valueOne.Ordered layout first.slots valueTwo) {slot? : Option SlotId}
    (inside : ∀ slot : Nat, slot? = some slot → slot < first.slots.size) :
    Runs layout Store.Ordered first second (Analysis.onSlots (one.write slot? valueOne))
      (Analysis.onSlots (two.write slot? valueTwo)) := by
  cases slot? with
  | none => exact .pure sessions stores
  | some slot =>
      rw [Comparison.onSlots_write (Ty.all_isFlat_of_basic values.basic),
        Comparison.onSlots_write (Ty.all_isFlat_of_basic values.basicSecond)]
      have cleared := (stores.forget sessions.fits slot).assign inside values.state
      exact .withSlots sessions
        (.plantAll values.seedsFit values.seeds sessions cleared (inside slot rfl))

end Writes

section Checks

variable {span : Span} {target : Ty}

/-- The diagnostic for a value that must not flow into the target. -/
def rejection (context : Context) (span : Span) (target : Ty) : Site → Diagnostic
  | .assignment => .assignment span context.method target
  | .returnValue => .returnValue span context.method target
  | .argument parameter callee => .argument span context.method parameter callee

/-- A rejected conversion is a warning and not the hint on a fallback. -/
theorem kind_rejection (site : Site) : (rejection context span target site).kind ≠ .neverNull := by
  cases site <;> simp [rejection, Diagnostic.assignment, Diagnostic.returnValue,
    Diagnostic.argument, Diagnostic.covering, Diagnostic.ofKind, Diagnostic.startingAt,
    Diagnostic.endingAt]

/-- A basic type has no marks inside, so its shape is never at fault. -/
theorem checkShape_basic (basic : target.isBasic = true) (source : Ty) :
    context.checkShape source target span = pure ⟨⟩ := by
  have never := context.classes.classify_basic basic source
  rw [Context.checkShape, if_neg]
  simp [never]

/-- There are no marks inside a basic target to be checked. -/
theorem checkConversion_basic (basic : target.isBasic = true) (value : Value) (site : Site) :
    context.checkConversion value target span site =
      if !value.ty?.all Ty.isError && target.rejects value.state then
        Analysis.emit (rejection context span target site)
      else pure ⟨⟩ := by
  obtain ⟨state, ty?, slot?, seeds⟩ := value
  unfold Context.checkConversion
  cases ty? with
  | none => rfl
  | some source =>
      cases source with
      | error name mark => rfl
      | _ =>
          simp only [checkShape_basic basic, Option.all_some, Ty.isError, Bool.not_false,
            Bool.true_and]
          cases target.rejects state
          · rfl
          · cases site <;> rfl

/-- If a smaller value is rejected for a target, a larger one is too. -/
theorem Runs.checkConversion (sessions : Lockstep layout first second) {table : SlotTable}
    (values : valueOne.Ordered layout table valueTwo) (basic : target.isBasic = true)
    (site : Site) : Runs layout anything first second
      (context.checkConversion valueOne target span site)
      (context.checkConversion valueTwo target span site) := by
  rw [checkConversion_basic basic, checkConversion_basic basic]
  refine .emit_if sessions (fun _ rejected => ?_) fun isHint => absurd isHint (kind_rejection site)
  obtain ⟨known, rejected⟩ := Bool.and_eq_true_iff.mp rejected
  obtain ⟨mayBeNull, forbidden⟩ := Bool.and_eq_true_iff.mp rejected
  have sameError := Value.Ordered.all_ty? Ty.isError_shape values.shape
  rw [Bool.and_eq_true_iff, sameError]
  exact ⟨known, Bool.and_eq_true_iff.mpr
    ⟨FlowState.isMaybeNull_mono values.state mayBeNull, forbidden⟩⟩

/-- A returned value is checked if the body is known to return something. -/
theorem checkReturn_eq (value : Value) (session : Session) :
    context.checkReturn value span session =
      (match session.expected? with
        | some target => context.checkConversion value target span .returnValue
        | none => pure ⟨⟩) session := rfl

/-- Returned values are checked in lockstep. -/
theorem Runs.checkReturn (sessions : Lockstep layout first second) {table : SlotTable}
    (values : valueOne.Ordered layout table valueTwo) : Runs layout anything first second
      (context.checkReturn valueOne span) (context.checkReturn valueTwo span) := by
  refine .congr (checkReturn_eq _ _) (checkReturn_eq _ _) ?_
  have basic := sessions.basic
  rw [sessions.expected]
  cases expected : first.expected? with
  | none => exact .pure sessions trivial
  | some target =>
      rw [expected] at basic
      exact .checkConversion sessions values basic .returnValue

/-- A dereference reports and then takes it that the receiver is not null. -/
theorem dereference_eq (receiver : Value) (store : Store) :
    context.dereference receiver span store =
      (if store.isReachable && (receiver.state.isMaybeNull &&
          !receiver.ty?.all fun ty => ty.isError || ty.isNull || ty.isValue) then
        Analysis.emit (.dereference span context.method)
      else pure ⟨⟩) >>= fun _ => pure (store.assign receiver.slot? .notNull) := by
  have checkable : (receiver.ty?.any fun ty => !(ty.isError || ty.isNull || ty.isValue)) =
      !receiver.ty?.all fun ty => ty.isError || ty.isNull || ty.isValue := by
    cases receiver.ty? <;> simp
  rw [Context.dereference, checkable]
  cases store with
  | unreachable => rfl
  | reachable facts =>
      simp only [Store.isReachable, Bool.not_true, Bool.true_and]
      cases receiver.state.isMaybeNull &&
        !receiver.ty?.all fun ty => ty.isError || ty.isNull || ty.isValue <;> rfl

/-- Receivers are dereferenced in lockstep, and the larger warns wherever the smaller does. -/
theorem Runs.dereference (sessions : Lockstep layout first second)
    (stores : one.Ordered first.slots two) (values : valueOne.Ordered layout first.slots valueTwo) :
    Runs layout Store.Ordered first second (context.dereference valueOne span one)
      (context.dereference valueTwo span two) := by
  rw [dereference_eq, dereference_eq]
  refine (Runs.emit_if sessions (fun _ reported => ?_) fun isHint => by cases isHint).bind ?_
  · obtain ⟨reachable, reported⟩ := Bool.and_eq_true_iff.mp reported
    obtain ⟨mayBeNull, checkable⟩ := Bool.and_eq_true_iff.mp reported
    have sameType : (valueTwo.ty?.all fun ty => ty.isError || ty.isNull || ty.isValue) =
        valueOne.ty?.all fun ty => ty.isError || ty.isNull || ty.isValue :=
      Value.Ordered.all_ty? (fun ty => by simp) values.shape
    rw [Bool.and_eq_true_iff, Bool.and_eq_true_iff, sameType]
    exact ⟨stores.states.reachable ▸ reachable,
      FlowState.isMaybeNull_mono values.state mayBeNull, checkable⟩
  · intro first' second' _ _ extended sessions _
    exact .pure sessions ((values.grow extended).assign (stores.grow extended)
      (FlowState.le_refl _))

end Checks

end Lockstep
end NullFlow
