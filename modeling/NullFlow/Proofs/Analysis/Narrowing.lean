import NullFlow.Proofs.Analysis.Framing
import NullFlow.Proofs.Analysis.Reachability
import NullFlow.Proofs.Analysis.Writes
/-!
What a comparison and an element access make known of a local. Both read the local first, then
evaluate another operand, and only then record what follows for the slot of the local. If the other
operand has assigned the local in between, they record it of the new value.
-/

namespace NullFlow

namespace Store

variable {table : SlotTable} {id : LocalId} {slot : SlotId}

/-- The state that a store knows of a local, by the slot of the local in the table. -/
def stateOf (store : Store) (table : SlotTable) (id : LocalId) : FlowState :=
  store.lookup table (table.get? (.localVar id))

theorem stateOf_slot (isSlot : table.get? (.localVar id) = some slot) (store : Store) :
    store.stateOf table id = store.lookup table (some slot) := congrArg (store.lookup table) isSlot

/-- After an assignment the variable is in the state assigned. -/
theorem stateOf_assign {store : Store} (isSlot : table.get? (.localVar id) = some slot)
    (live : store.Live) (state : FlowState) :
    (store.assign (some slot) state).stateOf table id = state := by
  rw [stateOf_slot isSlot, lookup_assign live, if_pos rfl]

end Store

section Rules

variable {context : Context} {left right receiver position : Part} {first second : Value}
  {store : Store} {session : Session} {table : SlotTable} {id : LocalId} {slot : SlotId}

/-- A local compared with a value that lies nowhere. The values do not differ for sure, so nothing
follows if they do. If they are equal, the local is not null unless the value may be. -/
theorem compareValues_loose (plainLeft : left.isNull = false) (plainRight : right.isNull = false)
    (loose : second.slot? = none) :
    compareValues left right first second store =
      ⟨if second.state.isMaybeNull then store else store.assign first.slot? .notNull, store⟩ := by
  rw [compareValues, plainLeft, plainRight, loose]
  simp only [Store.assign_none, ite_self]

/-- Where the values are equal, what is known of the local stays as it was if the other value may
be null, or if the local was known to be not null anyway. -/
theorem stateOf_equal_iff (isSlot : table.get? (.localVar id) = some slot) (live : store.Live)
    (state : FlowState) :
    (if state.isMaybeNull then store else store.assign (some slot) .notNull).stateOf table id =
        store.stateOf table id ↔
      state = .maybeNull ∨ store.stateOf table id = .notNull := by
  cases state with
  | maybeNull => simp [FlowState.isMaybeNull]
  | notNull =>
      rw [show FlowState.notNull.isMaybeNull = false from rfl, if_neg Bool.false_ne_true,
        Store.stateOf_assign isSlot live]
      simp [eq_comm]

/-- The parts of an element access are evaluated one after the other, and then the first one is not
null. -/
theorem evaluateIndex_store (context : Context) (receiver position : Part) (store : Store)
    (session : Session) :
    let base := receiver.value store session
    let index := position.value base.1.2 base.2
    let evaluated := evaluateIndex context receiver position store session
    evaluated.1.2 = index.1.2.assign base.1.1.slot? .notNull ∧
      evaluated.2.slots = index.2.slots := by
  intro base index evaluated
  have silent := Comparison.Silent.dereference context base.1.1 receiver.span index.1.2 index.2
  exact ⟨Comparison.dereference_fst context base.1.1 receiver.span index.1.2 index.2, silent.1⟩

/-- What an element access makes of its evaluated parts. -/
theorem indexRule_eq (context : Context) (ty? : Option Ty) (receiver position : Part)
    (store : Store) (session : Session) :
    indexRule context ty? receiver position store session =
      let evaluated := evaluateIndex context receiver position store session
      (match evaluated.1.1.ty?.bind Ty.element? with
        | some element => (do
            let slot? ← Analysis.onSlots
              (SlotTable.element evaluated.1.1.slot? element.declaredState)
            return (← placeValue element slot? evaluated.1.2, evaluated.1.2) : Analysis _)
        | none =>
            match ty? with
            | some ty => return (.loose ty.declaredState (some ty), evaluated.1.2)
            | none => return (.unresolved, evaluated.1.2)) evaluated.2 := rfl

/-- An element access leaves the store that the dereference of its receiver leaves. The slots that
it makes or declares anew keep those that there are. -/
theorem indexRule_store (context : Context) (ty? : Option Ty) (receiver position : Part)
    (store : Store) (session : Session) :
    let base := receiver.value store session
    let index := position.value base.1.2 base.2
    let answer := indexRule context ty? receiver position store session
    answer.1.2 = index.1.2.assign base.1.1.slot? .notNull ∧
      index.2.slots.Keeps answer.2.slots := by
  intro base index answer
  obtain ⟨sameStore, sameSlots⟩ := evaluateIndex_store context receiver position store session
  rw [← sameStore, ← sameSlots]
  generalize isEvaluated : evaluateIndex context receiver position store session = evaluated
  have placed (element : Ty) (slot? : Option SlotId) :
      KeepsSlots (placeValue element slot? evaluated.1.2) := by
    cases slot? with
    | none => exact .of_same fun _ => rfl
    | some slot => exact fun session => SlotTable.KeepsKeys.redeclare slot _ session.slots
  have read (element : Ty) : KeepsSlots (do
      let slot? ← Analysis.onSlots (SlotTable.element evaluated.1.1.slot? element.declaredState)
      return (← placeValue element slot? evaluated.1.2, evaluated.1.2)) := by
    apply KeepsSlots.bind fun session =>
      SlotTable.KeepsKeys.element evaluated.1.1.slot? element.declaredState session.slots
    intro slot? _
    exact (placed element slot?).bind fun _ _ => .of_same fun _ => rfl
  have unfolded : answer = _ := indexRule_eq context ty? receiver position store session
  rw [unfolded, isEvaluated]
  dsimp only
  cases evaluated.1.1.ty?.bind Ty.element? with
  | none => cases ty? <;> exact ⟨rfl, .refl _⟩
  | some element => exact ⟨rfl, read element evaluated.2⟩

end Rules

section Expressions

variable (context : Context)

/-- Reading a variable yields what the store knows of it and changes no record. -/
theorem read_value (source : Variable) (ty? : Option Ty) (span : Span) (session : Session)
    (facts : Facts) :
    let answer := ((Expr.node ⟨.read source, ty?, span⟩).meaning context).value (.reachable facts)
      session
    ∃ slot, answer.1.1.slot? = some slot ∧ answer.1.2 = .reachable facts ∧
      answer.2.slots.get? (.localVar source.id) = some slot :=
  ⟨_, rfl, rfl, SlotTable.get?_intern ..⟩

/-- Control goes on after a call, whatever it does. -/
theorem call_value (receiver? : Option Expr) (signature : Signature)
    (arguments : List (Argument Expr)) (ty? : Option Ty) (span : Span) {store : Store}
    (live : store.Live) (session : Session) :
    let answer := ((Expr.node ⟨.call receiver? signature arguments, ty?, span⟩).meaning context).value
      store session
    answer.1.1.slot? = none ∧ answer.1.2.Live ∧ session.slots.Keeps answer.2.slots := by
  intro answer
  have decides := meaning_decides context (.node ⟨.call receiver? signature arguments, ty?, span⟩)
  refine ⟨?_, (decides.value live).answer session, (meaning_keepsSlots context _).value _ session⟩
  cases store with
  | unreachable => rfl
  | reachable facts => rfl

end Expressions

end NullFlow
