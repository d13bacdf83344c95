import NullFlow.Proofs.Analysis.Tracking
import NullFlow.Proofs.FlowGraph.Contents
/-!
The runs of a block from two stores compare.
-/

namespace NullFlow.Comparison

variable (pair : Comparison)

/-- The meaning keeps to some outline. -/
def Tracked (meaning : Meaning) : Prop := ∃ outline, pair.Tracks outline meaning

def TrackedSimple : Simple Meaning → Prop
  | .declare target value? =>
      pair.layout.coversVariable target = true ∧ ∀ meaning ∈ value?, pair.Tracked meaning
  | .evaluate meaning => pair.Tracked meaning

/-- The edges lead to the same blocks. -/
def outflows : View Outflow where
  fits table outflow := ∀ edge ∈ outflow, edge.2.Within table
  alike := List.Forall₂ fun one two =>
    one.1 = two.1 ∧ Store.Matches pair.bound pair.target one.2 two.2
  grow extended fits edge member := (fits edge member).extend extended

variable {pair} {context : Context} {first second : Session} {one two : Store}

/-- Every edge of one of two outflows that are alike has an edge of the other one beside it. -/
theorem outflows_left {one two : Outflow} (alike : pair.outflows.alike one two) :
    ∀ edge ∈ one, ∃ store, (edge.1, store) ∈ two ∧
      Store.Matches pair.bound pair.target edge.2 store := by
  intro edge member
  induction alike with
  | nil => cases member
  | @cons left right _ _ head _ ih =>
      rcases List.mem_cons.mp member with rfl | inRest
      · refine ⟨right.2, ?_, head.2⟩
        rw [head.1]
        exact List.mem_cons_self
      · obtain ⟨store, inTwo, same⟩ := ih inRest
        exact ⟨store, List.mem_cons_of_mem _ inTwo, same⟩

/-- Whatever the second run sends, the first sends a related store along the same edge. -/
theorem outflows_right {one two : Outflow} (alike : pair.outflows.alike one two) :
    ∀ edge ∈ two, ∃ store, (edge.1, store) ∈ one ∧
      Store.Matches pair.bound pair.target store edge.2 := by
  intro edge member
  induction alike with
  | nil => cases member
  | @cons left right _ _ head _ ih =>
      rcases List.mem_cons.mp member with rfl | inRest
      · refine ⟨left.2, ?_, head.2⟩
        rw [← head.1]
        exact List.mem_cons_self
      · obtain ⟨store, inOne, same⟩ := ih inRest
        exact ⟨store, List.mem_cons_of_mem _ inOne, same⟩

section Steps

/-- A declaration of a covered variable keeps two runs related. -/
theorem declare_runs {target : Variable} {meaning : Meaning} (tracked : pair.Tracked meaning)
    (covered : pair.layout.coversVariable target = true)
    (related : pair.Related pair.stores first second one two) :
    pair.Runs pair.stores first second (target.declare context meaning one)
      (target.declare context meaning two) := by
  obtain ⟨outline, tracks⟩ := tracked
  refine (tracks.value related).bind related.reached ?_
  rintro first1 second1 ⟨valueOne, one⟩ ⟨valueTwo, two⟩ _ _ values
  have stores := values.stores_of_values
  refine .ite (fun known => congrArg _ (stores.alike known).reachable) (.pure stores) ?_
  refine .silent_ite values (.checkConversion _ _ _ _ _) (.checkConversion _ _ _ _ _)
    fun growsFirst growsSecond => ?_
  have values := values.grow growsFirst growsSecond
  refine (Runs.intern values.stores_of_values (Layout.state_of_variable covered) rfl).bind
    values.reached ?_
  intro first2 second2 slotOne slotTwo growsFirst growsSecond slots
  have places : pair.Related place first2 second2 (some slotOne) (some slotTwo) := by
    refine slots.with (fun slot same => ?_) (fun slot same => ?_) fun known => ?_
    · exact Option.some.inj same ▸ slots.fitsFirst
    · exact Option.some.inj same ▸ slots.fitsSecond
    · exact congrArg some (slots.alike known)
  exact .write places (values.grow growsFirst growsSecond)

theorem value_runs {meaning : Meaning} (tracked : pair.Tracked meaning)
    (related : pair.Related pair.stores first second one two) :
    pair.Runs pair.stores first second (Prod.snd <$> meaning.value one)
      (Prod.snd <$> meaning.value two) := by
  obtain ⟨outline, tracks⟩ := tracked
  have evaluated := tracks.value related
  exact evaluated.map Prod.snd (fun _ _ fits => fits.2.within) fun _ _ alike => alike.2

/-- A step whose parts are tracked keeps two runs related. -/
theorem step_runs {step : Step (Simple Meaning) Meaning}
    (parts : step.Over pair.TrackedSimple pair.Tracked)
    (related : pair.Related pair.stores first second one two) :
    pair.Runs pair.stores first second (step.run context one) (step.run context two) := by
  match step, parts with
  | .simple (.declare _ none), _ => exact .pure related
  | .simple (.declare target (some meaning)), parts =>
      exact declare_runs (parts.2 meaning rfl) parts.1 related
  | .simple (.evaluate meaning), tracked => exact value_runs tracked related
  | .update meaning, tracked => exact value_runs tracked related

/-- The steps of a block keep two runs related. -/
theorem steps_runs {steps : List (Step (Simple Meaning) Meaning)}
    (parts : ∀ step ∈ steps, step.Over pair.TrackedSimple pair.Tracked)
    {first second : Session} {one two : Store}
    (related : pair.Related pair.stores first second one two) :
    pair.Runs pair.stores first second
      (steps.foldlM (fun store step => step.run context store) one)
      (steps.foldlM (fun store step => step.run context store) two) := by
  induction steps generalizing first second one two with
  | nil => exact .pure related
  | cons step rest ih =>
      rw [List.foldlM_cons, List.foldlM_cons]
      refine (step_runs (parts step List.mem_cons_self) related).bind related.reached ?_
      intro first' second' one two _ _ after
      exact ih (fun other member => parts other (List.mem_cons_of_mem _ member)) after

end Steps

section Terminators

/-- A case of a switch narrows related stores to related ones. -/
theorem Related.narrow {tracked : Bool} {valueOne valueTwo : Value} (hasNullArm : Bool)
    (pattern? : Option Pattern)
    (values : pair.Related (pair.values tracked) first second (valueOne, one) (valueTwo, two)) :
    pair.Related pair.stores first second
      (SwitchTarget.narrow valueOne hasNullArm one pattern?)
      (SwitchTarget.narrow valueTwo hasNullArm two pattern?) := by
  have stores := values.stores_of_values
  have isNull := values.place_of_values.assign (stores.states .maybeNull) stores
  have notNull := values.place_of_values.assign (stores.states .notNull) stores
  match pattern? with
  | some .null => exact isNull
  | some (.type _) => exact notNull
  | none =>
      cases hasNullArm with
      | false => exact stores
      | true => exact notNull

theorem Related.noEdges {view : View Store} (related : pair.Related view first second one two) :
    pair.Related pair.outflows first second [] [] :=
  related.with (fun _ member => by cases member) (fun _ member => by cases member) fun _ => .nil

/-- Related stores may be sent along one more edge. -/
theorem Related.addEdge {target : BlockId} {outflowOne outflowTwo : Outflow}
    (stores : pair.Related pair.stores first second one two)
    (rest : pair.Related pair.outflows first second outflowOne outflowTwo) :
    pair.Related pair.outflows first second ((target, one) :: outflowOne)
      ((target, two) :: outflowTwo) :=
  stores.with (List.forall_mem_cons.mpr ⟨stores.fitsFirst, rest.fitsFirst⟩)
    (List.forall_mem_cons.mpr ⟨stores.fitsSecond, rest.fitsSecond⟩)
    fun known => .cons ⟨rfl, stores.alike known⟩ (rest.alike known)

/-- Records what a body returns. -/
def recordReturn (context : Context) (value : Value) (store : Store) (span : Span) :
    Analysis PUnit :=
  if store.isReachable then do
    context.checkReturn value span
    Analysis.addReturn ⟨value.state, value.ty?⟩
  else return

theorem Silent.recordReturn (context : Context) (value : Value) (store : Store) (span : Span) :
    Silent (recordReturn context value store span) :=
  .ite _ (.bind (.checkReturn _ _ _) fun _ => .modifyReturns _) (.pure _)

/-- A returned value is evaluated and then recorded. -/
theorem run_returnValue (meaning : Meaning) (span : Span) (store : Store) :
    Terminator.run context (.returnValue (some meaning) span) store = (do
      let (value, store) ← meaning.value store
      recordReturn context value store meaning.span
      return []) := by
  rw [Terminator.run]
  refine congrArg _ (funext fun evaluated => ?_)
  obtain ⟨value, store⟩ := evaluated
  cases store <;> rfl

/-- The end of a block sends related stores along the same edges. -/
theorem terminator_runs {terminator : Terminator Meaning}
    (parts : ∀ meaning ∈ terminator.exprs, pair.Tracked meaning)
    (related : pair.Related pair.stores first second one two) :
    pair.Runs pair.outflows first second (terminator.run context one)
      (terminator.run context two) := by
  match terminator with
  | .goto target => exact .pure (related.addEdge related.noEdges)
  | .branch condition whenTrue whenFalse =>
      obtain ⟨outline, tracks⟩ := parts condition List.mem_cons_self
      refine (tracks.branches related).bind related.reached ?_
      intro first' second' branchesOne branchesTwo _ _ branches
      exact .pure (branches.whenTrue.addEdge
        (branches.whenFalse.addEdge branches.whenFalse.noEdges))
  | .switch scrutinee targets =>
      obtain ⟨outline, tracks⟩ := parts scrutinee List.mem_cons_self
      refine (tracks.value related).bind related.reached ?_
      rintro first' second' ⟨valueOne, one⟩ ⟨valueTwo, two⟩ _ _ values
      refine .pure ?_
      generalize (targets.any fun arm => arm.pattern?.any Pattern.isNull) = hasNullArm
      induction targets with
      | nil => exact values.stores_of_values.noEdges
      | cons arm rest ih =>
          exact (values.narrow hasNullArm arm.pattern?).addEdge (ih parts)
  | .returnValue none _ => exact .pure related.noEdges
  | .returnValue (some meaning) span =>
      obtain ⟨outline, tracks⟩ := parts meaning List.mem_cons_self
      rw [run_returnValue, run_returnValue]
      refine (tracks.value related).bind related.reached ?_
      rintro first' second' ⟨valueOne, one⟩ ⟨valueTwo, two⟩ _ _ values
      have none := values.stores_of_values.noEdges
      exact .silent_left none (.recordReturn _ _ _ _) fun growsFirst =>
        .silent_right (none.grow growsFirst (.refl none.layoutSecond)) (.recordReturn _ _ _ _)
          fun growsSecond => .pure (none.grow growsFirst growsSecond)
  | .throwValue none => exact .pure related.noEdges
  | .throwValue (some meaning) =>
      obtain ⟨outline, tracks⟩ := parts meaning List.mem_cons_self
      refine (tracks.value related).bind related.reached ?_
      rintro first' second' ⟨valueOne, one⟩ ⟨valueTwo, two⟩ _ _ values
      exact .pure values.stores_of_values.noEdges
  | .exit => exact .pure related.noEdges

/-- A whole block keeps two runs related. -/
theorem transfer_runs {block : Block (Simple Meaning) Meaning}
    (parts : block.Over pair.TrackedSimple pair.Tracked)
    (related : pair.Related pair.stores first second one two) :
    pair.Runs pair.outflows first second (block.transfer context one)
      (block.transfer context two) := by
  refine (steps_runs parts.steps related).bind related.reached ?_
  intro first' second' one two _ _ after
  exact terminator_runs parts.terminator after

end Terminators

section Unreachable

/-- An unreached step does nothing. -/
theorem step_unreachable {step : Step (Simple Meaning) Meaning}
    (parts : step.Over pair.TrackedSimple pair.Tracked) (session : Session) :
    step.run context .unreachable session = (.unreachable, session) := by
  have value : ∀ {meaning : Meaning}, pair.Tracked meaning →
      meaning.value .unreachable session = ((.unresolved, .unreachable), session) :=
    fun ⟨_, tracks⟩ => tracks.unreached session
  match step, parts with
  | .simple (.declare _ none), _ => rfl
  | .simple (.declare target (some meaning)), parts =>
      simp only [Step.run, Variable.declare, bind, StateT.bind, value (parts.2 meaning rfl)]
      rfl
  | .simple (.evaluate meaning), tracked =>
      simp only [Step.run, Functor.map, StateT.map, bind, value tracked]
      rfl
  | .update meaning, tracked =>
      simp only [Step.run, Functor.map, StateT.map, bind, value tracked]
      rfl

/-- Unreached steps do nothing. -/
theorem steps_unreachable {steps : List (Step (Simple Meaning) Meaning)}
    (parts : ∀ step ∈ steps, step.Over pair.TrackedSimple pair.Tracked) (session : Session) :
    steps.foldlM (fun store step => step.run context store) .unreachable session =
      (Store.unreachable, session) := by
  induction steps with
  | nil => rfl
  | cons step rest ih =>
      obtain ⟨head, tail⟩ := List.forall_mem_cons.mp parts
      rw [List.foldlM_cons]
      simp only [bind, StateT.bind, step_unreachable head]
      exact ih tail

/-- The end of an unreached block sends nothing that is reached. -/
theorem terminator_unreachable {terminator : Terminator Meaning}
    (parts : ∀ meaning ∈ terminator.exprs, pair.Tracked meaning) (session : Session) :
    ∀ edge ∈ (terminator.run context .unreachable session).1, edge.2 = .unreachable := by
  intro edge member
  match terminator with
  | .goto target =>
      obtain rfl := List.mem_singleton.mp member
      rfl
  | .branch condition whenTrue whenFalse =>
      obtain ⟨outline, tracks⟩ := parts condition List.mem_cons_self
      simp only [Terminator.run, bind, StateT.bind, tracks.undecided] at member
      rcases List.mem_cons.mp member with rfl | member
      · rfl
      · obtain rfl := List.mem_singleton.mp member
        rfl
  | .switch scrutinee targets =>
      obtain ⟨outline, tracks⟩ := parts scrutinee List.mem_cons_self
      have narrowed : ∀ (hasNullArm : Bool) (pattern? : Option Pattern),
          SwitchTarget.narrow .unresolved hasNullArm .unreachable pattern? = .unreachable := by
        intro hasNullArm pattern?
        cases pattern? with
        | none => cases hasNullArm <;> rfl
        | some pattern => cases pattern <;> rfl
      simp only [Terminator.run, bind, StateT.bind, tracks.unreached] at member
      obtain ⟨arm, _, rfl⟩ := List.mem_map.mp member
      exact narrowed _ _
  | .returnValue none _ => cases member
  | .returnValue (some meaning) span =>
      rw [run_returnValue] at member
      cases member
  | .throwValue none => cases member
  | .throwValue (some meaning) => cases member
  | .exit => cases member

/-- Control does not leave a block that it does not reach. -/
theorem transfer_unreachable {block : Block (Simple Meaning) Meaning}
    (parts : block.Over pair.TrackedSimple pair.Tracked) (session : Session) :
    ∀ edge ∈ (block.transfer context .unreachable session).1, edge.2 = .unreachable := by
  have after : block.steps.foldlM (fun store step => step.run context store) .unreachable session =
      (.unreachable, session) := steps_unreachable parts.steps session
  simp only [Block.transfer, bind, StateT.bind, after]
  exact terminator_unreachable parts.terminator session

end Unreachable

section Alone

/-- Whatever a run is compared with, the meanings of a graph keep to outlines. -/
def Tracking (pair : Comparison) (graph : MeaningGraph) : Prop :=
  ∀ target, graph.Over (pair.toward target).TrackedSimple (pair.toward target).Tracked

/-- A run of a block makes stores that know slots of the table alone. -/
theorem transfer_alone (context : Context) {graph : MeaningGraph} (tracking : pair.Tracking graph)
    {block : Block (Simple Meaning) Meaning} (member : block ∈ graph.blocks) {session : Session}
    (fits : pair.layout.Fits session.slots) {store : Store} (within : store.Within session.slots) :
    pair.Alone pair.outflows session (block.transfer context store) := by
  have parts := tracking session.slots block member
  exact .of_self (transfer_runs parts (.self fits within (.refl store))) fun _ _ known => known

end Alone

end NullFlow.Comparison
