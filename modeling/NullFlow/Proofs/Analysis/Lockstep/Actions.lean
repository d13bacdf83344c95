import NullFlow.Proofs.Analysis.Writes
import NullFlow.Proofs.Store.Joins
/-!
Two runs of flat code in lockstep. They begin with the same slots, and the second run knows less of
them. It keeps to the slots of the first run and still knows less in the end. It warns wherever the
first run warns, and it hints only where the first run hints.
-/

namespace NullFlow

namespace Recorder

variable {recorder first second : Recorder} {diagnostic : Diagnostic}

/-- The recorder would keep the diagnostic. -/
def hears (recorder : Recorder) (diagnostic : Diagnostic) : Bool :=
  !(recorder.muted || (diagnostic.severity == .hint && !recorder.reportHints))

/-- A recorder keeps its settings when a diagnostic comes in, and its list grows by that one or by
none. -/
theorem emit_eq (recorder : Recorder) (diagnostic : Diagnostic) :
    recorder.emit diagnostic = { recorder with
      items := recorder.items ++ if recorder.hears diagnostic then [diagnostic] else [] } := by
  rw [emit, hears]
  cases recorder.muted || (diagnostic.severity == .hint && !recorder.reportHints)
  · rfl
  · simp

/-- Both recorders listen alike. The second one has the warnings of the first one, and the first
one has the hints of the second one. -/
structure Below (first second : Recorder) : Prop where
  muted : first.muted = second.muted
  reportHints : first.reportHints = second.reportHints
  warnings : ∀ diagnostic ∈ first.items, diagnostic.kind ≠ .neverNull →
    diagnostic ∈ second.items
  hints : ∀ diagnostic ∈ second.items, diagnostic.kind = .neverNull → diagnostic ∈ first.items

theorem Below.refl (recorder : Recorder) : Below recorder recorder :=
  ⟨rfl, rfl, fun _ member _ => member, fun _ member _ => member⟩

/-- The diagnostics of one list are in the other one, also after each of them may have gained one. -/
theorem mem_gain {items others : List Diagnostic} {here there : Bool} {other : Diagnostic}
    (member : other ∈ items ++ if here then [diagnostic] else [])
    (earlier : other ∈ items → other ∈ others)
    (now : other = diagnostic → here = true → there = true) :
    other ∈ others ++ if there then [diagnostic] else [] := by
  rcases List.mem_append.mp member with before | gained
  · exact List.mem_append_left _ (earlier before)
  · refine List.mem_append_right _ ?_
    cases here with
    | false => cases gained
    | true =>
        obtain rfl : other = diagnostic := List.mem_singleton.mp gained
        rw [now rfl rfl]
        exact List.mem_singleton_self other

/-- The same diagnostic in both recorders. A warning of the first one is one of the second one, and
a hint of the second one is one of the first one. -/
theorem Below.emit_if (below : Below first second) {decisionOne decisionTwo : Bool}
    (warns : diagnostic.kind ≠ .neverNull → decisionOne = true → decisionTwo = true)
    (hints : diagnostic.kind = .neverNull → decisionTwo = true → decisionOne = true) :
    Below (if decisionOne then first.emit diagnostic else first)
      (if decisionTwo then second.emit diagnostic else second) := by
  have hear : first.hears diagnostic = second.hears diagnostic := by
    simp only [hears, below.muted, below.reportHints]
  have heard : ∀ (decision : Bool) (recorder : Recorder),
      (if decision then recorder.emit diagnostic else recorder) = { recorder with
        items := recorder.items ++
          if decision && recorder.hears diagnostic then [diagnostic] else [] } := by
    intro decision recorder
    cases decision
    · simp
    · simp [emit_eq]
  rw [heard, heard, hear]
  refine ⟨below.muted, below.reportHints, fun other member isWarning => ?_,
    fun other member isHint => ?_⟩
  · refine mem_gain member (fun earlier => below.warnings other earlier isWarning) ?_
    rintro rfl kept
    obtain ⟨decided, isHeard⟩ := Bool.and_eq_true_iff.mp kept
    exact Bool.and_eq_true_iff.mpr ⟨warns isWarning decided, isHeard⟩
  · refine mem_gain member (fun earlier => below.hints other earlier isHint) ?_
    rintro rfl kept
    obtain ⟨decided, isHeard⟩ := Bool.and_eq_true_iff.mp kept
    exact Bool.and_eq_true_iff.mpr ⟨hints isHint decided, isHeard⟩

end Recorder

/-- What the innermost body must return. -/
def Session.expected? (session : Session) : Option Ty := (session.frames.headD ⟨none, []⟩).expected?

/-- The sessions of two runs after the same piece of code. -/
structure Lockstep (layout : Layout) (first second : Session) : Prop where
  slots : second.slots = first.slots
  fits : layout.Fits first.slots
  recorders : first.recorder.Below second.recorder
  expected : second.expected? = first.expected?
  basic : first.expected?.all Ty.isBasic = true

/-- Both stores know slots of the table alone, and the second one knows less of them. -/
structure Store.Ordered (table : SlotTable) (one two : Store) : Prop where
  withinFirst : one.Within table
  withinSecond : two.Within table
  states : Matches .upper table one two

/-- The values lie at the same place of the table, and less is known of the second one. -/
structure Value.Ordered (layout : Layout) (table : SlotTable) (one two : Value) : Prop
    extends Value.Alike .upper one two where
  inside : ∀ slot : Nat, one.slot? = some slot → slot < table.size
  basic : one.ty?.all Ty.isBasic = true
  seedsFit : ∀ seed ∈ one.seeds, seed.Fits layout

/-- Targets at the same place of the table. -/
structure Target.Ordered (table : SlotTable) (one two : Target) : Prop where
  same : one = two
  inside : ∀ slot : Nat, one.slot? = some slot → slot < table.size
  basic : one.declared?.all Ty.isBasic = true

section Orders

variable {layout : Layout} {before after table : SlotTable}

namespace Store.Ordered

variable {one two three four : Store}

/-- Ordered stores stay ordered when the table gains slots. -/
theorem grow (ordered : Store.Ordered before one two) (extended : before.Extends after) :
    Store.Ordered after one two where
  withinFirst := ordered.withinFirst.extend extended
  withinSecond := ordered.withinSecond.extend extended
  states := ordered.states.extend extended ordered.withinFirst ordered.withinSecond

theorem unreachable (table : SlotTable) : Store.Ordered table .unreachable .unreachable :=
  ⟨within_unreachable table, within_unreachable table, .unreachable⟩

/-- Assigning ordered states to the same slot keeps stores ordered. -/
theorem assign (ordered : Store.Ordered table one two) {slot? : Option SlotId}
    (inside : ∀ slot : Nat, slot? = some slot → slot < table.size) {state other : FlowState}
    (below : state ≤ other) :
    Store.Ordered table (one.assign slot? state) (two.assign slot? other) where
  withinFirst := ordered.withinFirst.assign inside state
  withinSecond := ordered.withinSecond.assign inside other
  states := ordered.states.assign slot? below

/-- A slot that equals a value is not null if the value is not null. -/
theorem assignUnless (ordered : Store.Ordered table one two) {slot? : Option SlotId}
    (inside : ∀ slot : Nat, slot? = some slot → slot < table.size) {state other : FlowState}
    (below : state ≤ other) :
    Store.Ordered table (if state.isMaybeNull then one else one.assign slot? .notNull)
      (if other.isMaybeNull then two else two.assign slot? .notNull) := by
  cases state with
  | maybeNull =>
      obtain rfl : FlowState.maybeNull = other := below
      exact ordered
  | notNull =>
      cases other with
      | notNull => exact ordered.assign inside (FlowState.le_refl _)
      | maybeNull =>
          exact ⟨ordered.withinFirst.assign inside _, ordered.withinSecond,
            ordered.states.assign_notNull slot?⟩

/-- Joins of ordered stores are ordered. -/
theorem join (left : Store.Ordered table one two) (right : Store.Ordered table three four) :
    Store.Ordered table (one.join table three) (two.join table four) where
  withinFirst := left.withinFirst.join right.withinFirst _
  withinSecond := left.withinSecond.join right.withinSecond _
  states := Matches.join (.refl _) (.refl _) left.withinFirst right.withinFirst left.states
    right.states

/-- Forgetting what is derived from a slot keeps stores ordered, since both fall back to the same
declarations. -/
theorem forget (ordered : Store.Ordered table one two) (fits : layout.Fits table) (slot : SlotId) :
    Store.Ordered table (one.forget (table.descendants slot))
      (two.forget (table.descendants slot)) where
  withinFirst := ordered.withinFirst.forget _
  withinSecond := ordered.withinSecond.forget _
  states := ordered.states.forget (.refl _) fits ordered.withinFirst slot

/-- Invalidating the members of a name keeps stores ordered. -/
theorem invalidate (ordered : Store.Ordered table one two) (fits : layout.Fits table)
    (name : String) : Store.Ordered table (one.invalidate table name) (two.invalidate table name) where
  withinFirst := Comparison.within_invalidate ordered.withinFirst name
  withinSecond := Comparison.within_invalidate ordered.withinSecond name
  states := ordered.states.invalidate (.refl _) fits fits ordered.withinFirst name

/-- Of ordered stores the larger knows no more of any slot. -/
theorem lookup (ordered : Store.Ordered table one two) (slot? : Option SlotId) :
    one.lookup table slot? ≤ two.lookup table slot? := by
  cases slot? with
  | none => exact FlowState.le_refl _
  | some slot => exact ordered.states.states slot

end Store.Ordered

/-- A slot of a table is one of a larger table. -/
theorem SlotTable.Extends.inside (extended : before.Extends after) {slot? : Option SlotId}
    (inside : ∀ slot : Nat, slot? = some slot → slot < before.size) :
    ∀ slot : Nat, slot? = some slot → slot < after.size :=
  fun slot found => Nat.lt_of_lt_of_le (inside slot found) extended.size_le

namespace Value.Ordered

variable {one two : Value}

theorem grow (ordered : Value.Ordered layout before one two) (extended : before.Extends after) :
    Value.Ordered layout after one two :=
  ⟨ordered.toAlike, extended.inside ordered.inside, ordered.basic, ordered.seedsFit⟩

/-- A property of types that does not depend on the mark at the top. -/
theorem all_ty? {test : Ty → Bool} (kept : ∀ ty : Ty, test ty.shape = test ty) {one? two? : Option Ty}
    (shape : one?.map Ty.shape = two?.map Ty.shape) : two?.all test = one?.all test := by
  cases one? <;> cases two?
  · rfl
  · cases shape
  · cases shape
  · rename_i first second
    rw [Option.all_some, Option.all_some, ← kept first, ← kept second, Option.some.inj shape]

/-- Ordered values agree in their types, so the second is basic as well. -/
theorem basicSecond (ordered : Value.Ordered layout table one two) :
    two.ty?.all Ty.isBasic = true :=
  (all_ty? Ty.isBasic_shape ordered.shape).trans ordered.basic

/-- Both stores learn something of the place of the values. -/
theorem assign (ordered : Value.Ordered layout table one two) {first second : Store}
    (stores : first.Ordered table second) {state other : FlowState} (below : state ≤ other) :
    (first.assign one.slot? state).Ordered table (second.assign two.slot? other) := by
  rw [← ordered.slot]
  exact stores.assign ordered.inside below

end Value.Ordered

theorem Ty.all_isFlat_of_basic {ty? : Option Ty} (basic : ty?.all Ty.isBasic = true) :
    ty?.all Ty.isFlat = true := by
  cases ty? with
  | none => rfl
  | some ty => exact Ty.isFlat_of_basic basic

/-- A value that lies at no place. -/
theorem Value.Ordered.loose {stateOne stateTwo : FlowState} {tyOne? tyTwo? : Option Ty}
    (below : stateOne ≤ stateTwo) (basic : tyOne?.all Ty.isBasic = true)
    (shape : tyOne?.map Ty.shape = tyTwo?.map Ty.shape) :
    Value.Ordered layout table (.loose stateOne tyOne?) (.loose stateTwo tyTwo?) :=
  ⟨⟨rfl, below, shape, .nil⟩, by simp [Value.loose], basic, by simp [Value.loose]⟩

/-- The value in a slot of a basic type. -/
theorem Value.Ordered.ofSlot {declared : Ty} (basic : declared.isBasic = true)
    {slot? : Option SlotId} (inside : ∀ slot : Nat, slot? = some slot → slot < table.size)
    {one two : Store} (stores : Store.Ordered table one two) :
    Value.Ordered layout table (.ofSlot table one declared slot?)
      (.ofSlot table two declared slot?) := by
  have typed := Comparison.ty?_ofSlot (Ty.isFlat_of_basic basic) table
  refine ⟨⟨rfl, stores.lookup slot?, ?_, .nil⟩, inside, ?_, by simp [Value.ofSlot]⟩
  · rw [typed, typed]
    simp
  · rw [typed]
    simpa using basic

end Orders

namespace Lockstep

variable {layout : Layout} {first second : Session} {Result Other : Type}

/-- Two runs that start in lockstep, and how their results compare. -/
structure Runs (layout : Layout) (order : SlotTable → Result → Result → Prop)
    (first second : Session) (one two : Analysis Result) : Prop where
  extended : first.slots.Extends (one first).2.slots
  sessions : Lockstep layout (one first).2 (two second).2
  results : order (one first).2.slots (one first).1 (two second).1

section Orders

/-- Nothing is known of the results. -/
def anything (_ : SlotTable) (_ _ : Result) : Prop := True

/-- The results are the same, and something is known of them. -/
def same (known : SlotTable → Result → Prop) (table : SlotTable) (one two : Result) : Prop :=
  one = two ∧ known table one

/-- Values beside stores. -/
def values (layout : Layout) (table : SlotTable) (one two : Value × Store) : Prop :=
  one.1.Ordered layout table two.1 ∧ one.2.Ordered table two.2

def branches (table : SlotTable) (one two : Branches) : Prop :=
  one.whenTrue.Ordered table two.whenTrue ∧ one.whenFalse.Ordered table two.whenFalse

/-- Targets of assignments beside stores. -/
def targets (table : SlotTable) (one two : Target × Store) : Prop :=
  one.1.Ordered table two.1 ∧ one.2.Ordered table two.2

end Orders

section Structure

variable {order : SlotTable → Result → Result → Prop} {other : SlotTable → Other → Other → Prop}

theorem Runs.pure {one two : Result} (sessions : Lockstep layout first second)
    (results : order first.slots one two) :
    Runs layout order first second (pure one) (pure two) := ⟨.refl _, sessions, results⟩

/-- Two runs in lockstep stay so through whatever follows, if what follows rises from their results.
-/
theorem Runs.bind {actionOne actionTwo : Analysis Result} {nextOne nextTwo : Result → Analysis Other}
    (early : Runs layout order first second actionOne actionTwo)
    (late : ∀ {first' second' one two}, first.slots.Extends first'.slots →
      Lockstep layout first' second' → order first'.slots one two →
      Runs layout other first' second' (nextOne one) (nextTwo two)) :
    Runs layout other first second (actionOne >>= nextOne) (actionTwo >>= nextTwo) := by
  have after := late early.extended early.sessions early.results
  exact ⟨early.extended.trans after.extended, after.sessions, after.results⟩

/-- Parts of the results. -/
theorem Runs.map {actionOne actionTwo : Analysis Result}
    (runs : Runs layout order first second actionOne actionTwo) (part : Result → Other)
    (implied : ∀ {table one two}, order table one two → other table (part one) (part two)) :
    Runs layout other first second (part <$> actionOne) (part <$> actionTwo) :=
  ⟨runs.extended, runs.sessions, implied runs.results⟩

/-- Actions that do the same in the two sessions. -/
theorem Runs.congr {actionOne actionTwo sameOne sameTwo : Analysis Result}
    (equalOne : actionOne first = sameOne first) (equalTwo : actionTwo second = sameTwo second)
    (runs : Runs layout order first second sameOne sameTwo) :
    Runs layout order first second actionOne actionTwo := by
  refine ⟨?_, ?_, ?_⟩
  · rw [equalOne]
    exact runs.extended
  · rw [equalOne, equalTwo]
    exact runs.sessions
  · rw [equalOne, equalTwo]
    exact runs.results

/-- Both runs see the same slot table. -/
theorem Runs.withSlots {nextOne nextTwo : SlotTable → Analysis Result}
    (sessions : Lockstep layout first second)
    (next : Runs layout order first second (nextOne first.slots) (nextTwo first.slots)) :
    Runs layout order first second (Analysis.slots >>= nextOne) (Analysis.slots >>= nextTwo) := by
  have atFirst : (Analysis.slots >>= nextOne) first = nextOne first.slots first := rfl
  have atSecond : (Analysis.slots >>= nextTwo) second = nextTwo first.slots second := by
    change nextTwo second.slots second = nextTwo first.slots second
    rw [sessions.slots]
  exact .congr atFirst atSecond next

/-- Both runs change the same table in the same way. -/
theorem Runs.onSlots {pair : Comparison} {view : View Result} {action : StateM SlotTable Result}
    (sessions : Lockstep pair.layout first second)
    (alone : pair.Alone view first (Analysis.onSlots action)) :
    Runs pair.layout (same view.fits) first second (Analysis.onSlots action)
      (Analysis.onSlots action) := by
  have slots := sessions.slots
  refine ⟨alone.grows.slots, ⟨?_, alone.grows.fits, sessions.recorders, sessions.expected,
    sessions.basic⟩, ?_, alone.fits⟩
  · change (action second.slots).2 = (action first.slots).2
    rw [slots]
  · change (action first.slots).1 = (action second.slots).1
    rw [slots]

/-- The same diagnostic, which each run reports or not. -/
theorem Runs.emit_if {diagnostic : Diagnostic} {decisionOne decisionTwo : Bool}
    (sessions : Lockstep layout first second)
    (warns : diagnostic.kind ≠ .neverNull → decisionOne = true → decisionTwo = true)
    (hints : diagnostic.kind = .neverNull → decisionTwo = true → decisionOne = true) :
    Runs layout anything first second
      (if decisionOne then Analysis.emit diagnostic else Pure.pure ⟨⟩)
      (if decisionTwo then Analysis.emit diagnostic else Pure.pure ⟨⟩) := by
  have emitted : ∀ (decision : Bool) (session : Session),
      (if decision then Analysis.emit diagnostic else Pure.pure ⟨⟩) session = (⟨⟩,
        { session with recorder :=
          if decision then session.recorder.emit diagnostic else session.recorder }) := by
    intro decision session
    cases decision <;> rfl
  refine ⟨?_, ?_, trivial⟩
  · rw [emitted]
    exact .refl _
  · rw [emitted, emitted]
    exact ⟨sessions.slots, sessions.fits, sessions.recorders.emit_if warns hints,
      sessions.expected, sessions.basic⟩

/-- What each run does or not, and what follows in both. -/
theorem Runs.ite_bind {decisionOne decisionTwo : Bool} {actionOne actionTwo : Analysis PUnit}
    {nextOne nextTwo : PUnit → Analysis Result}
    (early : Runs layout anything first second
      (if decisionOne then actionOne else Pure.pure ⟨⟩)
      (if decisionTwo then actionTwo else Pure.pure ⟨⟩))
    (late : ∀ {first' second'}, first.slots.Extends first'.slots →
      Lockstep layout first' second' →
      Runs layout order first' second' (nextOne ⟨⟩) (nextTwo ⟨⟩)) :
    Runs layout order first second
      (if decisionOne then actionOne >>= nextOne else nextOne ⟨⟩)
      (if decisionTwo then actionTwo >>= nextTwo else nextTwo ⟨⟩) := by
  have split : ∀ (decision : Bool) (action : Analysis PUnit) (next : PUnit → Analysis Result)
      (session : Session), (if decision then action >>= next else next ⟨⟩) session =
        ((if decision then action else Pure.pure ⟨⟩) >>= next) session := by
    intro decision action next session
    cases decision <;> rfl
  exact (early.bind fun extended sessions _ => late extended sessions).congr (split _ _ _ _)
    (split _ _ _ _)

end Structure

end Lockstep
end NullFlow
