import NullFlow.Proofs.Analysis.Parts
import NullFlow.Proofs.Analysis.Rules.Operations
import NullFlow.Proofs.Code.Constant
import NullFlow.Proofs.Code.Induction
/-!
Where control goes inside an expression. Evaluation that starts ends, so an expression that is
evaluated leaves a reachable store. A condition loses an outcome only if its text decides it. What
is not reached is not evaluated.
-/

namespace NullFlow

section Answers

variable {State Result Other : Type} {kind : Result → Prop} {other : Other → Prop}

/-- In every state the answer of the action is of the kind. -/
structure Ensures (action : StateM State Result) (kind : Result → Prop) : Prop where
  answer : ∀ state, kind (action state).1

theorem Ensures.pure {result : Result} (holds : kind result) :
    Ensures (Pure.pure result : StateM State Result) kind := ⟨fun _ => holds⟩

/-- What follows an action may rely on the kind of its result. -/
theorem Ensures.bind {first : StateM State Result} {next : Result → StateM State Other}
    (early : Ensures first kind) (late : ∀ result, kind result → Ensures (next result) other) :
    Ensures (first >>= next) other :=
  ⟨fun state => (late (first state).1 (early.answer state)).answer (first state).2⟩

/-- Nothing is known of the answer of the first action. -/
theorem Ensures.after {first : StateM State Result} {next : Result → StateM State Other}
    (late : ∀ result, Ensures (next result) other) : Ensures (first >>= next) other :=
  ⟨fun state => (late (first state).1).answer (first state).2⟩

/-- An action that may be left out. -/
theorem Ensures.check {first : StateM State PUnit} {next : PUnit → StateM State Other}
    (decision : Bool) (late : ∀ done, Ensures (next done) other) :
    Ensures (if decision then first >>= next else next ⟨⟩) other := by
  cases decision
  · exact late _
  · exact .after late

theorem Ensures.map {first : StateM State Result} {change : Result → Other}
    (early : Ensures first kind) (holds : ∀ result, kind result → other (change result)) :
    Ensures (change <$> first) other := ⟨fun state => holds _ (early.answer state)⟩

theorem Ensures.onSlots {action : StateM SlotTable Result} (holds : Ensures action kind) :
    Ensures (Analysis.onSlots action) kind := ⟨fun session => holds.answer session.slots⟩

/-- A loop ensures what every round keeps. -/
theorem Ensures.foldlM {Item : Type} {step : Result → Item → StateM State Result}
    {items : List Item}
    (each : ∀ item ∈ items, ∀ result, kind result → Ensures (step result item) kind) :
    ∀ {start : Result}, kind start → Ensures (items.foldlM step start) kind := by
  induction items with
  | nil => exact fun holds => .pure holds
  | cons item rest ih =>
      intro start holds
      rw [List.foldlM_cons]
      apply (each item List.mem_cons_self start holds).bind
      intro next holdsNext
      exact ih (fun later member => each later (List.mem_cons_of_mem _ member)) holdsNext

end Answers

/-- Control reaches the store. -/
def Store.Live (store : Store) : Prop := store.isReachable = true

/-- An evaluation ends with a store that control reaches. -/
def Continues {Result : Type} (result : Result × Store) : Prop := result.2.Live

section Stores

variable {store : Store}

/-- An assignment leaves a live store live. -/
theorem Store.Live.assign (live : store.Live) (slot? : Option SlotId) (state : FlowState) :
    (store.assign slot? state).Live := (Store.isReachable_assign ..).trans live

/-- A store stays live if some of its records are dropped. -/
theorem Store.Live.forget (live : store.Live) (slots : List SlotId) : (store.forget slots).Live :=
  (Store.isReachable_forget ..).trans live

theorem Store.isReachable_widen (store : Store) (slots : List SlotId) :
    (store.widen slots).isReachable = store.isReachable := by
  rw [widen]
  induction slots generalizing store with
  | nil => rfl
  | cons slot rest ih => rw [List.foldl_cons, ih, isReachable_assign]

/-- Control reaches a join if it reaches one of the stores joined. -/
theorem Store.live_join {table : SlotTable} {first second : Store} :
    (first.join table second).Live ↔ first.Live ∨ second.Live := by
  rw [Live, isReachable_join, Bool.or_eq_true]
  rfl

theorem Store.Live.record (live : store.Live) (key : SlotKey) (ty : Ty) :
    Ensures (store.record key ty) Continues := by
  apply Ensures.after
  intro slot
  apply Ensures.after
  intro _
  apply Ensures.pure
  change Store.Live (if _ then store else _)
  split
  · exact live
  · exact live.assign _ _

mutual

/-- Recording the marks inside a type leaves a live store live. -/
theorem Store.Live.spill (slot : SlotId) : ∀ (ty : Ty) {store : Store}, store.Live →
    Ensures (store.spill slot ty) Store.Live
  | .array element _, _, live => by
      rw [Store.spill]
      apply (live.record _ _).bind
      intro recorded after
      exact Store.Live.spill recorded.1 element after
  | .named _ arguments _, _, live => by
      rw [Store.spill]
      exact Store.Live.spillAll slot 0 arguments live
  | .null _, _, live => .pure live
  | .value .., _, live => .pure live
  | .parameter .., _, live => .pure live
  | .delegate .., _, live => .pure live
  | .dynamic _, _, live => .pure live
  | .error .., _, live => .pure live

theorem Store.Live.spillAll (slot : SlotId) (index : Nat) : ∀ (arguments : List Ty) {store : Store},
    store.Live → Ensures (store.spillAll slot index arguments) Store.Live
  | [], _, live => .pure live
  | ty :: rest, _, live => by
      rw [Store.spillAll]
      apply (live.record _ _).bind
      intro recorded after
      apply (Store.Live.spill recorded.1 ty after).bind
      intro store spilled
      exact Store.Live.spillAll slot (index + 1) rest spilled

end

theorem Store.Live.plant (live : store.Live) (slot : SlotId) (seed : Seed) :
    Ensures (store.plant slot seed) Store.Live :=
  .after fun _ => .pure (live.assign _ _)

/-- A write leaves a live store live. -/
theorem Store.Live.write (live : store.Live) (slot? : Option SlotId) (value : Value) :
    Ensures (store.write slot? value) Store.Live := by
  cases slot? with
  | none => exact .pure live
  | some slot =>
      apply Ensures.after
      intro table
      have written := (live.forget (table.descendants slot)).assign (some slot) value.state
      have planted : ∀ {store : Store}, store.Live →
          Ensures (value.seeds.foldlM (Store.plant slot) store) Store.Live := by
        apply Ensures.foldlM
        intro seed _ store live
        exact live.plant slot seed
      cases value.ty? with
      | none => exact planted written
      | some ty => exact (Store.Live.spill slot ty written).bind fun store live => planted live

/-- An invalidation leaves a live store live. -/
theorem Store.Live.invalidate (live : store.Live) (table : SlotTable) (name : String) :
    (store.invalidate table name).Live := (Comparison.isReachable_invalidate ..).trans live

end Stores

/-- An evaluation that starts ends. -/
def Advances {Result : Type} (rule : Store → Analysis (Result × Store)) : Prop :=
  ∀ ⦃store⦄, store.Live → Ensures (rule store) Continues

/-- A condition keeps the outcomes that its text does not exclude. -/
structure Branches.Open (decided? : Option Bool) (branches : Branches) : Prop where
  whenTrue : branches.whenTrue.Live ↔ decided? ≠ some false
  whenFalse : branches.whenFalse.Live ↔ decided? ≠ some true

def Splits (decided? : Option Bool) (rule : Store → Analysis Branches) : Prop :=
  ∀ ⦃store⦄, store.Live → Ensures (rule store) (Branches.Open decided?)

section Rules

variable {context : Context} {store : Store} {ty? : Option Ty}

/-- Control goes on after a dereference, whether or not it was reported. -/
theorem Store.Live.dereference (live : store.Live) (receiver : Value) (span : Span) :
    Ensures (context.dereference receiver span store) Store.Live := by
  have reached : (!store.isReachable) = false := by rw [show store.isReachable = true from live]; rfl
  simp only [Context.dereference, reached, Bool.false_eq_true, if_false]
  split
  · apply Ensures.after
    intro _
    exact .pure (live.assign _ _)
  · exact .pure (live.assign _ _)

section Values

theorem readRule_advances (source : Variable) : Advances (readRule source) := by
  intro store live
  apply Ensures.after
  intro slot
  apply Ensures.after
  intro table
  exact .pure live

theorem thisRule_advances : Advances (thisRule context ty?) := by
  intro store live
  apply Ensures.after
  intro slot
  exact .pure live

theorem castRule_advances {operand : Part} (ofOperand : Advances operand.get.value) :
    Advances (castRule ty? operand) := by
  intro store live
  apply (ofOperand live).bind
  intro evaluated after
  exact .pure after

theorem placeValue_advances (declared : Ty) (slot? : Option SlotId) :
    Advances fun store => do return (← placeValue declared slot? store, store) := by
  intro store live
  apply Ensures.after
  intro value
  exact .pure live

/-- Control goes on after a member access if it goes on after the receiver. -/
theorem memberRule_advances {receiver : Part} (ofReceiver : Advances receiver.get.value)
    (member : Member) : Advances (memberRule context receiver member) := by
  intro store live
  apply (ofReceiver live).bind
  intro base evaluated
  apply (evaluated.dereference base.1 receiver.span).bind
  intro store checked
  split
  · exact .pure checked
  · apply Ensures.after
    intro slot?
    exact placeValue_advances _ slot? checked

/-- Control goes on after an element access if it goes on after both of its parts. -/
theorem evaluateIndex_advances {receiver position : Part} (ofReceiver : Advances receiver.get.value)
    (ofPosition : Advances position.get.value) : Advances (evaluateIndex context receiver position) := by
  intro store live
  apply (ofReceiver live).bind
  intro base evaluated
  apply (ofPosition evaluated).bind
  intro index evaluated
  apply (evaluated.dereference base.1 receiver.span).bind
  intro store checked
  exact .pure checked

theorem indexRule_advances {receiver position : Part} (ofReceiver : Advances receiver.get.value)
    (ofPosition : Advances position.get.value) :
    Advances (indexRule context ty? receiver position) := by
  intro store live
  apply (evaluateIndex_advances ofReceiver ofPosition live).bind
  intro base evaluated
  dsimp only
  split
  · apply Ensures.after
    intro slot?
    exact placeValue_advances _ slot? evaluated
  · split
    · exact .pure evaluated
    · exact .pure evaluated

/-- Control goes on after operands in a row if it goes on after each. -/
theorem evaluateAll_advances : ∀ {parts : List Part}, (∀ part ∈ parts, Advances part.get.value) →
    Advances (evaluateAll parts)
  | [], _ => fun _ live => .pure live
  | part :: rest, each => by
      intro store live
      apply (each part List.mem_cons_self live).bind
      intro first evaluated
      have ofRest := evaluateAll_advances fun later member =>
        each later (List.mem_cons_of_mem _ member)
      apply (ofRest evaluated).bind
      intro others evaluated
      exact .pure evaluated

theorem fillArray_continues (element : Ty) : ∀ {items : List Part},
    (∀ part ∈ items, Advances part.get.value) → ∀ {store : Store}, store.Live →
    Ensures (fillArray context element items store) Store.Live
  | [], _, _, live => .pure live
  | part :: rest, each, store, live => by
      apply (each part List.mem_cons_self live).bind
      intro first evaluated
      apply Ensures.after
      intro _
      exact fillArray_continues element (fun later member =>
        each later (List.mem_cons_of_mem _ member)) evaluated

theorem arrayRule_advances (element? : Option Ty) {items : List Part}
    (each : ∀ part ∈ items, Advances part.get.value) :
    Advances (arrayRule context element? items) := by
  intro store live
  cases element? with
  | some element =>
      apply (fillArray_continues element each live).bind
      intro store filled
      exact .pure filled
  | none =>
      apply (evaluateAll_advances each live).bind
      intro values evaluated
      dsimp only
      split
      · exact .pure evaluated
      · exact .pure evaluated
      · apply Ensures.after
        intro _
        exact .pure evaluated

theorem operationRule_advances {operands : List Part}
    (each : ∀ part ∈ operands, Advances part.get.value) : Advances (operationRule ty? operands) := by
  intro store live
  apply (evaluateAll_advances each live).bind
  intro values evaluated
  exact .pure evaluated

theorem badRule_advances {children : List Part}
    (each : ∀ part ∈ children, Advances part.get.value) : Advances (badRule children) := by
  intro store live
  apply (evaluateAll_advances each live).bind
  intro values evaluated
  exact .pure evaluated

theorem suppressRule_advances {operand : Part} (ofOperand : Advances operand.get.value) :
    Advances (suppressRule operand) := by
  intro store live
  apply (ofOperand live).bind
  intro evaluated after
  exact .pure (Store.Live.assign after _ _)

/-- Control goes on after an assignment is recorded. -/
theorem record_continues (place : Target) (result : Value) (live : store.Live) :
    Ensures (Comparison.record place result store) Store.Live := by
  unfold Comparison.record
  split
  · apply Ensures.after
    intro table
    exact .pure (live.assign _ _)
  · exact .onSlots (live.write _ _)

/-- Control goes on after an assignment if it goes on after its target and its value. -/
theorem assignRule_advances {target value : Part} (ofTarget : Advances target.get.target)
    (ofValue : Advances value.get.value) : Advances (assignRule context target value) := by
  intro store live
  rw [Comparison.assignRule_eq]
  apply (ofTarget live).bind
  intro place evaluated
  apply (ofValue evaluated).bind
  intro result evaluated
  apply Ensures.after
  intro _
  apply (record_continues place.1 result.1 evaluated).bind
  intro store recorded
  exact .pure recorded

end Values

section Calls

variable {signature : Signature} {arguments : List (Argument Part)}

/-- Control goes on after the arguments of a call if it goes on after each. -/
theorem evaluateArguments_continues : ∀ (position : Nat) {arguments : List (Argument Part)},
    (∀ argument ∈ arguments, Advances argument.value.get.value) → ∀ (bindings : Bindings)
    {store : Store}, store.Live →
    Ensures (evaluateArguments context signature position arguments bindings store)
      fun result => result.2.2.Live
  | _, [], _, _, _, live => .pure live
  | position, argument :: rest, each, bindings, store, live => by
      have ofRest := fun bindings {store : Store} (live : store.Live) =>
        evaluateArguments_continues (position + 1)
          (fun later member => each later (List.mem_cons_of_mem _ member)) bindings live
      rw [evaluateArguments]
      split
      · exact ofRest bindings live
      · apply (each argument List.mem_cons_self live).bind
        intro first evaluated
        apply (ofRest _ evaluated).bind
        intro others evaluated
        exact .pure evaluated

theorem passArguments_advances (each : ∀ argument ∈ arguments, Advances argument.value.get.value)
    (types : Instantiation) (dynamic : Bool) :
    Advances (passArguments context signature arguments types dynamic) := by
  intro store live
  apply (evaluateArguments_continues 0 each [] live).bind
  intro evaluated after
  apply Ensures.after
  intro bindings
  dsimp only
  split
  · apply Ensures.after
    intro _
    exact .pure after
  · exact .pure after

theorem evaluateReceiver_advances {receiver? : Option Part}
    (ofReceiver : ∀ receiver ∈ receiver?, Advances receiver.get.value) :
    Advances (evaluateReceiver context receiver?) := by
  intro store live
  cases receiver? with
  | none => exact .pure live
  | some receiver =>
      apply (ofReceiver receiver rfl live).bind
      intro value evaluated
      apply (evaluated.dereference value.1 receiver.span).bind
      intro store checked
      exact .pure checked

/-- Control goes on after a call if it goes on after its receiver and its arguments. -/
theorem callRule_advances {receiver? : Option Part}
    (ofReceiver : ∀ receiver ∈ receiver?, Advances receiver.get.value)
    (each : ∀ argument ∈ arguments, Advances argument.value.get.value) :
    Advances (callRule context ty? receiver? signature arguments) := by
  intro store live
  apply (evaluateReceiver_advances ofReceiver live).bind
  intro receiverTy? evaluated
  apply (passArguments_advances each _ _ evaluated).bind
  intro types passed
  exact .pure passed

mutual

/-- The values of an initializer entry are evaluated one after the other. -/
theorem seedMember_advances (owner? : Option Ty) (path : List (String × FlowState))
    {rest : List (Initializer Part)}
    (ofRest : Advances (seedMembers context owner? path rest)) : ∀ {entry : Initializer Part},
    (∀ part ∈ entry.values, Advances part.get.value) →
    Advances (seedMembers context owner? path (entry :: rest))
  | .value member part, each => by
      intro store live
      rw [seedMembers]
      apply (each part List.mem_cons_self live).bind
      intro value evaluated
      dsimp only
      split
      · apply Ensures.after
        intro _
        apply (ofRest evaluated).bind
        intro seeds evaluated
        exact .pure evaluated
      · apply (ofRest evaluated).bind
        intro seeds evaluated
        exact .pure evaluated
  | .nested member entries, each => by
      intro store live
      rw [seedMembers]
      apply (seedMembers_advances _ _ each live).bind
      intro inner evaluated
      apply (ofRest evaluated).bind
      intro seeds evaluated
      exact .pure evaluated

/-- Control goes on after initializers if it goes on after their values. -/
theorem seedMembers_advances (owner? : Option Ty) (path : List (String × FlowState)) :
    ∀ {entries : List (Initializer Part)}, (∀ part ∈ initializerValues entries,
      Advances part.get.value) → Advances (seedMembers context owner? path entries)
  | [], _ => fun _ live => by
      rw [seedMembers]
      exact .pure live
  | _ :: _, each =>
      seedMember_advances owner? path
        (seedMembers_advances owner? path fun later member =>
          each later (List.mem_append_right _ member))
        fun part member => each part (List.mem_append_left _ member)

end

theorem construct_continues (constructor? : Option Signature)
    (each : ∀ argument ∈ arguments, Advances argument.value.get.value) (live : store.Live) :
    Ensures (construct context ty? constructor? arguments store) Store.Live := by
  cases constructor? with
  | none =>
      apply Ensures.foldlM _ live
      intro argument member store live
      exact (each argument member live).map fun _ evaluated => evaluated
  | some signature =>
      apply (passArguments_advances each _ _ live).bind
      intro types passed
      exact .pure passed

/-- Control goes on after a creation if it goes on after its arguments and its initializers. -/
theorem createRule_advances {constructor? : Option Signature}
    {initializers : List (Initializer Part)}
    (each : ∀ argument ∈ arguments, Advances argument.value.get.value)
    (entries : ∀ part ∈ initializerValues initializers, Advances part.get.value) :
    Advances (createRule context ty? constructor? arguments initializers) := by
  intro store live
  apply (construct_continues constructor? each live).bind
  intro store constructed
  apply (seedMembers_advances ty? [] entries constructed).bind
  intro seeds evaluated
  exact .pure evaluated

end Calls

section Targets

theorem variableTarget_advances (source : Variable) : Advances (variableTarget source) := by
  intro store live
  apply Ensures.after
  intro slot
  exact .pure live

theorem memberTarget_advances {receiver : Part} (ofReceiver : Advances receiver.get.value)
    (member : Member) : Advances (memberTarget context receiver member) := by
  intro store live
  apply (ofReceiver live).bind
  intro base evaluated
  apply (evaluated.dereference base.1 receiver.span).bind
  intro store checked
  -- Without a slot the assignment may concern every member of the name.
  have lost (declared? : Option Ty) : Ensures (do
      let table ← Analysis.slots
      return ((⟨none, declared?, false, false⟩ : Target), store.invalidate table member.name))
      Continues := by
    apply Ensures.after
    intro table
    exact .pure (checked.invalidate table member.name)
  dsimp only
  split
  · apply Ensures.after
    intro slot?
    cases slot? with
    | some slot => exact .pure checked
    | none => exact lost _
  · exact lost _

theorem indexTarget_advances {receiver position : Part} (ofReceiver : Advances receiver.get.value)
    (ofPosition : Advances position.get.value) :
    Advances (indexTarget context ty? receiver position) := by
  intro store live
  apply (evaluateIndex_advances ofReceiver ofPosition live).bind
  intro base evaluated
  dsimp only
  split
  · apply Ensures.after
    intro slot?
    exact .pure evaluated
  · exact .pure evaluated

end Targets

end Rules

/-- What the meaning of an expression does to stores, if its text decides the outcome. -/
structure Meaning.Decides (meaning : Meaning) (decided? : Option Bool) : Prop where
  value : Advances meaning.value
  branches : Splits decided? meaning.branches
  target : Advances meaning.target
  /-- Nothing is evaluated where control does not come. -/
  unreached : ∀ session, meaning.value .unreachable session = ((.unresolved, .unreachable), session)
  undecided : ∀ session,
    meaning.branches .unreachable session = (⟨.unreachable, .unreachable⟩, session)

section Conditions

variable {context : Context} {ty? : Option Ty} {left right operand : Part}
  {first? second? decided? : Option Bool}

theorem not_live_unreachable : ¬Store.unreachable.Live := by
  intro live
  cases live

/-- Nothing is known of the outcome. -/
theorem Branches.open_both {branches : Branches} (whenTrue : branches.whenTrue.Live)
    (whenFalse : branches.whenFalse.Live) : branches.Open none :=
  ⟨by simpa using whenTrue, by simpa using whenFalse⟩

/-- The opposite of a condition. -/
theorem Branches.Open.flip {branches : Branches} (isOpen : branches.Open decided?) :
    Branches.Open (decided?.map not) ⟨branches.whenFalse, branches.whenTrue⟩ where
  whenTrue := isOpen.whenFalse.trans (not_congr (map_not_eq false).symm)
  whenFalse := isOpen.whenTrue.trans (not_congr (map_not_eq true).symm)

/-- A condition that is not reached has no outcome. -/
theorem Meaning.Decides.branches_of {meaning : Meaning} (decides : meaning.Decides decided?)
    (store : Store) : Ensures (meaning.branches store) fun branches =>
      (branches.whenTrue.Live ↔ store.Live ∧ decided? ≠ some false) ∧
      (branches.whenFalse.Live ↔ store.Live ∧ decided? ≠ some true) := by
  constructor
  intro session
  cases store with
  | unreachable =>
      rw [decides.undecided]
      simp [not_live_unreachable]
  | reachable facts =>
      have live : (Store.reachable facts).Live := rfl
      have isOpen := (decides.branches live).answer session
      exact ⟨isOpen.whenTrue.trans (by simp [live]), isOpen.whenFalse.trans (by simp [live])⟩

/-- An evaluation goes on exactly if it starts. -/
theorem Meaning.Decides.value_of {meaning : Meaning} (decides : meaning.Decides decided?)
    (store : Store) : Ensures (meaning.value store) fun result => result.2.Live ↔ store.Live := by
  constructor
  intro session
  cases store with
  | unreachable => rw [decides.unreached]
  | reachable facts =>
      have live : (Store.reachable facts).Live := rfl
      exact iff_of_true ((decides.value live).answer session) live

/-- A boolean literal decides which of its branches is live, and another literal decides nothing. -/
theorem literalBranches_split (value : Literal) :
    Splits (match value with | .bool outcome => some outcome | _ => none)
      fun store => return literalBranches value store := by
  intro store live
  apply Ensures.pure
  match value with
  | .bool true => exact ⟨by simpa [literalBranches] using live,
      by simpa [literalBranches] using not_live_unreachable⟩
  | .bool false => exact ⟨by simpa [literalBranches] using not_live_unreachable,
      by simpa [literalBranches] using live⟩
  | .null => exact Branches.open_both live live
  | .number _ => exact Branches.open_both live live
  | .string _ => exact Branches.open_both live live

/-- A negation decides the opposite of what its operand decides. -/
theorem notRule_splits (ofOperand : operand.get.Decides decided?) :
    Splits (decided?.map not) (notRule operand) := by
  intro store live
  apply (ofOperand.branches live).bind
  intro branches isOpen
  exact .pure isOpen.flip

/-- A conjunction decides what its operands decide together. -/
theorem andRule_splits (ofLeft : left.get.Decides first?) (ofRight : right.get.Decides second?) :
    Splits (decidedAnd first? second?) (andRule left right) := by
  intro store live
  apply (ofLeft.branches live).bind
  intro first openFirst
  apply (ofRight.branches_of first.whenTrue).bind
  rintro second ⟨whenTrue, whenFalse⟩
  apply Ensures.after
  intro table
  apply Ensures.pure
  constructor
  · simp only [whenTrue, openFirst.whenTrue, ne_eq, decidedAnd_eq_false, not_or]
  · simp only [Store.live_join, whenFalse, openFirst.whenTrue, openFirst.whenFalse, ne_eq,
      decidedAnd_eq_true, not_and_or]
    by_cases holds : first? = some true <;> simp [holds]

/-- A disjunction decides what its operands decide together. -/
theorem orRule_splits (ofLeft : left.get.Decides first?) (ofRight : right.get.Decides second?) :
    Splits (decidedOr first? second?) (orRule left right) := by
  intro store live
  apply (ofLeft.branches live).bind
  intro first openFirst
  apply (ofRight.branches_of first.whenFalse).bind
  rintro second ⟨whenTrue, whenFalse⟩
  apply Ensures.after
  intro table
  apply Ensures.pure
  constructor
  · simp only [Store.live_join, whenTrue, openFirst.whenTrue, openFirst.whenFalse, ne_eq,
      decidedOr_eq_false, not_and_or]
    by_cases fails : first? = some false <;> simp [fails]
  · simp only [whenFalse, openFirst.whenFalse, ne_eq, decidedOr_eq_true, not_or]

/-- Both outcomes of a comparison are live, even of a comparison of literals. -/
theorem compareValues_open {store : Store} (live : store.Live) (left right : Part)
    (first second : Value) :
    (compareValues left right first second store).Open none := by
  unfold compareValues
  split
  · exact Branches.open_both (live.assign _ _) (live.assign _ _)
  · exact Branches.open_both (live.assign _ _) (live.assign _ _)
  · apply Branches.open_both _ live
    dsimp only
    split <;> split <;> simp only [Store.Live, Store.isReachable_assign] <;> exact live
  · exact Branches.open_both live live

/-- No comparison is decided. -/
theorem equalityRule_splits (negated : Bool) (ofLeft : Advances left.get.value)
    (ofRight : Advances right.get.value) : Splits none (equalityRule negated left right) := by
  intro store live
  apply (ofLeft live).bind
  intro first evaluated
  apply (ofRight evaluated).bind
  intro second evaluated
  have isOpen := compareValues_open evaluated left right first.1 second.1
  cases negated with
  | false => exact .pure isOpen
  | true => exact .pure isOpen.flip

/-- No pattern is decided. -/
theorem testRule_splits (pattern : Pattern) (ofOperand : Advances operand.get.value) :
    Splits none (testRule operand pattern) := by
  intro store live
  apply (ofOperand live).bind
  intro inner evaluated
  cases pattern with
  | null => exact .pure (Branches.open_both (evaluated.assign _ _) (evaluated.assign _ _))
  | type ty => exact .pure (Branches.open_both (evaluated.assign _ _) evaluated)

/-- One of the two sides of a choice is evaluated. -/
theorem conditionalRule_advances {condition whenTrue whenFalse : Part}
    (ofCondition : condition.get.Decides decided?) (ofTrue : whenTrue.get.Decides first?)
    (ofFalse : whenFalse.get.Decides second?) :
    Advances (conditionalRule context ty? condition whenTrue whenFalse) := by
  intro store live
  apply (ofCondition.branches live).bind
  intro branches isOpen
  apply (ofTrue.value_of branches.whenTrue).bind
  intro first goesOnTrue
  apply (ofFalse.value_of branches.whenFalse).bind
  intro second goesOnFalse
  apply Ensures.after
  intro table
  apply Ensures.pure
  change (first.2.join table second.2).Live
  rw [Store.live_join, goesOnTrue, goesOnFalse, isOpen.whenTrue, isOpen.whenFalse]
  by_cases fails : decided? = some false <;> simp [fails]

/-- Control goes on after a fallback if it goes on after both operands. -/
theorem coalesceRule_advances (ofLeft : Advances left.get.value) (ofRight : Advances right.get.value) :
    Advances (coalesceRule context left right) := by
  intro store live
  apply (ofLeft live).bind
  intro first evaluated
  dsimp only
  split
  · exact .pure evaluated
  · have whenPresent : (first.2.assign first.1.slot? .notNull).Live := evaluated.assign _ _
    apply Ensures.check
    intro _
    apply (ofRight (evaluated.assign _ _)).bind
    intro second evaluated
    apply Ensures.after
    intro table
    have joined : ((first.2.assign first.1.slot? .notNull).join table second.2).Live :=
      Store.live_join.mpr (Or.inl whenPresent)
    split
    · apply Ensures.after
      intro _
      exact .pure joined
    · exact .pure joined

end Conditions

section Meanings

variable {span : Span} {ty? : Option Ty} {decided? : Option Bool}

/-- A guarded rule need advance from live stores alone. -/
theorem Advances.guard {rule : Store → Analysis (Value × Store)} (advances : Advances rule) :
    Advances (Meaning.guardValue rule) := by
  intro store live
  cases store with
  | unreachable => cases live
  | reachable facts => exact advances live

/-- A guarded rule need split live stores alone. -/
theorem Splits.guard {rule : Store → Analysis Branches} (splits : Splits decided? rule) :
    Splits decided? (Meaning.guardBranches rule) := by
  intro store live
  cases store with
  | unreachable => cases live
  | reachable facts => exact splits live

theorem Advances.plainTarget {rule : Store → Analysis (Value × Store)} (advances : Advances rule) :
    Advances (Meaning.plainTarget ty? rule) := by
  intro store live
  apply (advances live).bind
  intro evaluated after
  exact .pure after

theorem decides_ofValue {rule : Store → Analysis (Value × Store)} (advances : Advances rule) :
    (Meaning.ofValue span ty? rule).Decides none where
  value := advances.guard
  branches := by
    apply Splits.guard
    intro store live
    apply (advances live).bind
    intro evaluated after
    exact .pure (Branches.open_both after after)
  target := advances.guard.plainTarget
  unreached _ := rfl
  undecided _ := rfl

/-- A condition that is evaluated for its value goes on after one of its outcomes. -/
theorem decides_ofBranches {rule : Store → Analysis Branches} (splits : Splits decided? rule) :
    (Meaning.ofBranches span ty? rule).Decides decided? := by
  have advances : Advances fun store => do
      let branches ← rule store
      return (Value.loose .notNull ty?,
        branches.whenTrue.join (← Analysis.slots) branches.whenFalse) := by
    intro store live
    apply (splits live).bind
    intro branches isOpen
    apply Ensures.after
    intro table
    apply Ensures.pure
    change (branches.whenTrue.join table branches.whenFalse).Live
    rw [Store.live_join, isOpen.whenTrue, isOpen.whenFalse]
    by_cases fails : decided? = some false <;> simp [fails]
  exact ⟨advances.guard, splits.guard, advances.guard.plainTarget, fun _ => rfl, fun _ => rfl⟩

/-- What is known of a meaning does not depend on its marks. -/
theorem Meaning.Decides.marked {meaning : Meaning} (decides : meaning.Decides decided?)
    (isNull isConstant : Bool) : Meaning.Decides { meaning with isNull, isConstant } decided? :=
  ⟨decides.value, decides.branches, decides.target, decides.unreached, decides.undecided⟩

theorem Meaning.Decides.withTarget {meaning : Meaning} (decides : meaning.Decides decided?)
    {target : Store → Analysis (Target × Store)} (advances : Advances target) :
    Meaning.Decides { meaning with target } decided? :=
  ⟨decides.value, decides.branches, advances, decides.unreached, decides.undecided⟩

/-- A meaning decides what the rule of its branches does. -/
theorem Meaning.Decides.withBranches {meaning : Meaning} {other? : Option Bool}
    (decides : meaning.Decides other?) {rule : Store → Analysis Branches}
    (splits : Splits decided? rule) :
    Meaning.Decides { meaning with branches := guardBranches rule } decided? :=
  ⟨decides.value, splits.guard, decides.target, decides.unreached, fun _ => rfl⟩

/-- A lambda as such decides nothing, and control goes on after it. -/
theorem lambdaMeaning_decides (context : Context) (graph : Thunk MeaningGraph) :
    (lambdaMeaning context span ty? graph).Decides none := by
  have advances : Advances fun store => do
      let _ ← graph.get.analyzeLambda context ty?
      return (Value.loose .notNull ty?, store) := by
    intro store live
    apply Ensures.after
    intro returned?
    exact .pure live
  have decides : (Meaning.ofValue span ty? _).Decides none := decides_ofValue advances
  exact ⟨decides.value, decides.branches, decides.target, decides.unreached, decides.undecided⟩

end Meanings

section Expressions

variable {context : Context}

/-- The meaning of the expression decides what the text of the expression decides. -/
def Expr.Decides (context : Context) (expr : Expr) : Prop :=
  (expr.part context).get.Decides expr.decided?

/-- The meaning of a node decides what its text decides, if those of its parts do. -/
theorem node_decides (node : Node Variable Expr Code)
    (children : ∀ child ∈ node.kind.children, child.Decides context) :
    (Expr.node node).Decides context := by
  obtain ⟨kind, ty?, span⟩ := node
  have advance : ∀ child ∈ kind.children, Advances (child.part context).get.value :=
    fun child member => (children child member).value
  cases kind with
  | read source =>
      exact (decides_ofValue (readRule_advances source)).withTarget (variableTarget_advances source)
  | this => exact decides_ofValue thisRule_advances
  | literal value =>
      have advances : Advances fun store => return (literalValue ty? value, store) :=
        fun _ live => .pure live
      have plain : (Meaning.ofValue span ty? _).Decides none := decides_ofValue advances
      have decides := (plain.withBranches (literalBranches_split value)).marked
        (decide (value = .null)) (decide (value ≠ .null))
      cases value <;> exact decides
  | defaultValue =>
      exact decides_ofValue fun _ live => .pure live
  | cast operand =>
      have ofOperand := children operand List.mem_cons_self
      exact (decides_ofValue (castRule_advances ofOperand.value)).marked _ _
  | member receiver? member =>
      cases receiver? with
      | none =>
          have target : Advances fun store =>
              return ((⟨none, some member.ty, false, false⟩ : Target), store) :=
            fun _ live => .pure live
          have value : Advances fun store =>
              return (Value.loose member.ty.declaredState (some member.ty), store) :=
            fun _ live => .pure live
          exact (decides_ofValue value).withTarget target
      | some receiver =>
          have ofReceiver := children receiver List.mem_cons_self
          exact (decides_ofValue (memberRule_advances ofReceiver.value member)).withTarget
            (memberTarget_advances ofReceiver.value member)
  | index receiver position =>
      have ofReceiver := children receiver List.mem_cons_self
      have ofPosition := children position (by simp [ExprKind.children])
      exact (decides_ofValue (indexRule_advances ofReceiver.value ofPosition.value)).withTarget
        (indexTarget_advances ofReceiver.value ofPosition.value)
  | call receiver? method arguments =>
      have ofArguments := delayArguments_each (fun part => Advances part.value) fun expr member =>
        advance expr (List.mem_append_right _ member)
      apply decides_ofValue (callRule_advances _ ofArguments)
      intro receiver isReceiver
      cases receiver? with
      | none => cases isReceiver
      | some expr =>
          obtain rfl : _ = receiver := Option.some.inj isReceiver
          exact (children expr (by simp [ExprKind.children])).value
  | create constructor? arguments initializers =>
      have ofArguments := delayArguments_each (fun part => Advances part.value) fun expr member =>
        advance expr (List.mem_append_left _ member)
      have ofInitializers := delayInitializers_each (fun part => Advances part.value) fun expr member =>
        advance expr (List.mem_append_right _ member)
      exact decides_ofValue (createRule_advances ofArguments ofInitializers)
  | array element? items =>
      have ofItems := delayAll_each (fun part => Advances part.value) advance
      exact decides_ofValue (arrayRule_advances element? ofItems)
  | conditional condition whenTrue whenFalse =>
      have ofCondition := children condition (by simp [ExprKind.children])
      have ofTrue := children whenTrue (by simp [ExprKind.children])
      have ofFalse := children whenFalse (by simp [ExprKind.children])
      exact decides_ofValue (conditionalRule_advances ofCondition ofTrue ofFalse)
  | coalesce left right =>
      have ofLeft := children left (by simp [ExprKind.children])
      have ofRight := children right (by simp [ExprKind.children])
      exact decides_ofValue (coalesceRule_advances ofLeft.value ofRight.value)
  | binary operator left right =>
      have ofLeft := children left (by simp [ExprKind.children])
      have ofRight := children right (by simp [ExprKind.children])
      cases operator with
      | equal => exact decides_ofBranches (equalityRule_splits false ofLeft.value ofRight.value)
      | notEqual => exact decides_ofBranches (equalityRule_splits true ofLeft.value ofRight.value)
      | and => exact decides_ofBranches (andRule_splits ofLeft ofRight)
      | or => exact decides_ofBranches (orRule_splits ofLeft ofRight)
      | other =>
          have ofOperands := delayAll_each (fun part => Advances part.value) advance
          exact decides_ofValue (operationRule_advances ofOperands)
  | unary operator operand =>
      have ofOperand := children operand List.mem_cons_self
      cases operator with
      | not => exact decides_ofBranches (notRule_splits ofOperand)
      | other =>
          have ofOperands := delayAll_each (fun part => Advances part.value) advance
          exact decides_ofValue (operationRule_advances ofOperands)
  | test operand pattern =>
      have ofOperand := children operand List.mem_cons_self
      exact decides_ofBranches (testRule_splits pattern ofOperand.value)
  | suppress operand =>
      have ofOperand := children operand List.mem_cons_self
      exact decides_ofValue (suppressRule_advances ofOperand.value)
  | assign target value =>
      have ofTarget := children target (by simp [ExprKind.children])
      have ofValue := children value (by simp [ExprKind.children])
      exact decides_ofValue (assignRule_advances ofTarget.target ofValue.value)
  | lambda parameters body =>
      cases body with
      | expr value => exact lambdaMeaning_decides context _
      | block code => exact lambdaMeaning_decides context _
  | bad exprs =>
      have ofExprs := delayAll_each (fun part => Advances part.value) advance
      exact decides_ofValue (badRule_advances ofExprs)

/-- The meaning of every expression decides what its text decides. -/
theorem meaning_decides (context : Context) (expr : Expr) :
    (expr.meaning context).Decides expr.decided? :=
  Expr.fromParts (motive := Expr.Decides context)
    (fun node children _ => node_decides node children) expr

end Expressions

end NullFlow
