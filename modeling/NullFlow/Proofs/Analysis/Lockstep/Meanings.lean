import NullFlow.Proofs.Analysis.Lockstep.Calls
import NullFlow.Proofs.Analysis.Parts
import NullFlow.Proofs.Analysis.Transfer
/-!
Flat code keeps two runs in lockstep: first every expression, then the steps and the end of a block.
-/

namespace NullFlow.Lockstep

variable {layout : Layout} {context : Context}

section Updates

variable {meaning : Meaning}

theorem Rises.marked (rises : Rises layout meaning) (isNull isConstant : Bool) :
    Rises layout { meaning with isNull, isConstant } :=
  ⟨rises.basic, rises.value, rises.branches, rises.target, rises.noLambda⟩

theorem Rises.withBranches (rises : Rises layout meaning) {rule : Store → Analysis Branches}
    (rise : BranchesRise layout rule) :
    Rises layout { meaning with branches := Meaning.guardBranches rule } :=
  ⟨rises.basic, rises.value, rise.guard, rises.target, rises.noLambda⟩

theorem Rises.withTarget (rises : Rises layout meaning)
    {target : Store → Analysis (Target × Store)} (rise : TargetRises layout target) :
    Rises layout { meaning with target } :=
  ⟨rises.basic, rises.value, rises.branches, rise, rises.noLambda⟩

end Updates

section Expressions

/-- The local is covered by the layout, and its type has no inner positions. -/
def PlainVariable (layout : Layout) (source : Variable) : Prop :=
  layout.coversVariable source = true ∧ source.ty.isBasic = true

/-- A node that makes no lambda and no array, and that names types without inner positions alone. -/
structure PlainNode (layout : Layout) (node : Node Variable Expr Code) : Prop where
  typed : node.ty?.all Ty.isBasic = true
  noArray : node.kind.isArray = false
  noLambda : node.kind.isLambda = false
  reads : ∀ source, node.kind = .read source → PlainVariable layout source
  names : ∀ member ∈ node.kind.members, Plain layout member
  callees : ∀ callee ∈ node.kind.callees, ∀ ty ∈ callee.types, ty.isBasic = true

/-- A node of plain code rises if its parts do. -/
theorem node_rises (basicThis : context.thisType?.all Ty.isBasic = true)
    {node : Node Variable Expr Code} (plain : PlainNode layout node)
    (parts : ∀ child ∈ node.kind.children, Rises layout (child.part context).get) :
    Rises layout ((Expr.node node).meaning context) := by
  obtain ⟨kind, ty?, span⟩ := node
  obtain ⟨typed, noArray, noLambda, reads, names, callees⟩ := plain
  cases kind with
  | array element? items => cases noArray
  | lambda parameters body => cases noLambda
  | read source =>
      obtain ⟨covered, basic⟩ := reads source rfl
      exact (rises_ofValue typed (readRule_rises covered basic)).withTarget
        (variableTarget_rises covered basic)
  | this => exact rises_ofValue typed (thisRule_rises basicThis typed)
  | literal value =>
      exact ((rises_ofValue typed (literal_rises typed)).withBranches
        (literalBranches_rise value)).marked _ _
  | defaultValue =>
      exact rises_ofValue typed (constant_rises ((Ty.all_isBasic_map_withState ty? _).trans typed))
  | cast operand =>
      have ofOperand := parts operand List.mem_cons_self
      exact (rises_ofValue typed (castRule_rises typed ofOperand)).marked _ _
  | member receiver? member =>
      obtain ⟨covered, basic⟩ := names member List.mem_cons_self
      cases receiver? with
      | none =>
          have basicMember : (some member.ty).all Ty.isBasic = true := basic
          exact (rises_ofValue typed (constant_rises basicMember)).withTarget
            (noTarget_rises basicMember)
      | some receiver =>
          have ofReceiver := parts receiver List.mem_cons_self
          exact (rises_ofValue typed (memberRule_rises covered basic ofReceiver)).withTarget
            (memberTarget_rises covered basic ofReceiver)
  | index receiver position =>
      have ofReceiver := parts receiver List.mem_cons_self
      have ofPosition := parts position (by simp [ExprKind.children])
      exact (rises_ofValue typed (indexRule_rises typed ofReceiver ofPosition)).withTarget
        (indexTarget_rises typed ofReceiver ofPosition)
  | call receiver? method arguments =>
      have ofArguments := delayArguments_each (Rises layout) fun expr member =>
        parts expr (List.mem_append_right _ member)
      refine rises_ofValue typed (callRule_rises (callees method List.mem_cons_self) ?_ ofArguments)
      intro receiver isReceiver
      cases receiver? with
      | none => cases isReceiver
      | some expr =>
          obtain rfl : _ = receiver := Option.some.inj isReceiver
          exact parts expr (by simp [ExprKind.children])
  | create constructor? arguments initializers =>
      have ofArguments := delayArguments_each (Rises layout) fun expr member =>
        parts expr (List.mem_append_left _ member)
      have ofEntries := delayInitializers_each (Rises layout) fun expr member =>
        parts expr (List.mem_append_right _ member)
      have plainEntries : ∀ member ∈ initializerMembers
          (delayInitializers (Meaning.ofNode context) initializers), Plain layout member := by
        rw [members_delayInitializers]
        exact names
      have callee : ∀ signature ∈ constructor?, ∀ ty ∈ signature.types, ty.isBasic = true :=
        fun signature isConstructor => callees signature (Option.mem_toList.mpr isConstructor)
      exact rises_ofValue typed (createRule_rises typed callee ofArguments plainEntries ofEntries)
  | conditional condition whenTrue whenFalse =>
      have ofCondition := parts condition (by simp [ExprKind.children])
      have ofTrue := parts whenTrue (by simp [ExprKind.children])
      have ofFalse := parts whenFalse (by simp [ExprKind.children])
      exact rises_ofValue typed (conditionalRule_rises typed ofCondition ofTrue ofFalse)
  | coalesce left right =>
      have ofLeft := parts left (by simp [ExprKind.children])
      have ofRight := parts right (by simp [ExprKind.children])
      exact rises_ofValue typed (coalesceRule_rises ofLeft ofRight)
  | binary operator left right =>
      have ofLeft := parts left (by simp [ExprKind.children])
      have ofRight := parts right (by simp [ExprKind.children])
      cases operator with
      | equal => exact rises_ofBranches typed (equalityRule_rise false ofLeft ofRight)
      | notEqual => exact rises_ofBranches typed (equalityRule_rise true ofLeft ofRight)
      | and => exact rises_ofBranches typed (andRule_rise ofLeft ofRight)
      | or => exact rises_ofBranches typed (orRule_rise ofLeft ofRight)
      | other => exact rises_ofValue typed (operationRule_rises typed (delayAll_each _ parts))
  | unary operator operand =>
      have ofOperand := parts operand List.mem_cons_self
      cases operator with
      | not => exact rises_ofBranches typed (notRule_rise ofOperand)
      | other => exact rises_ofValue typed (operationRule_rises typed (delayAll_each _ parts))
  | test operand pattern =>
      have ofOperand := parts operand List.mem_cons_self
      exact rises_ofBranches typed (testRule_rise pattern ofOperand)
  | suppress operand =>
      have ofOperand := parts operand List.mem_cons_self
      exact rises_ofValue typed (suppressRule_rises ofOperand)
  | assign target value =>
      have ofTarget := parts target (by simp [ExprKind.children])
      have ofValue := parts value (by simp [ExprKind.children])
      exact rises_ofValue typed (assignRule_rises ofTarget ofValue)
  | bad exprs => exact rises_ofValue typed (badRule_rises (delayAll_each _ parts))

end Expressions

section Blocks

/-- A block of which all expressions keep two runs in lockstep. -/
def RisingBlock (layout : Layout) (block : Block (Simple Meaning) Meaning) : Prop :=
  block.Over (Simple.Over (PlainVariable layout) (Rises layout)) (Rises layout)

/-- Edges to the same blocks, with stores of which less is known in the second run. -/
def outflows (table : SlotTable) (one two : Outflow) : Prop :=
  List.Forall₂ (fun edge other => edge.1 = other.1 ∧ edge.2.Ordered table other.2) one two

variable {first second : Session} {one two : Store} {meaning : Meaning}

/-- A declaration of a plain variable runs in lockstep. -/
theorem declare_runs {target : Variable} (plain : PlainVariable layout target)
    (rises : Rises layout meaning) (sessions : Lockstep layout first second)
    (stores : one.Ordered first.slots two) :
    Runs layout Store.Ordered first second (target.declare context meaning one)
      (target.declare context meaning two) := by
  obtain ⟨covered, basic⟩ := plain
  refine (rises.value sessions stores).bind ?_
  rintro first1 second1 ⟨valueOne, one⟩ ⟨valueTwo, two⟩ _ sessions ⟨values, stores⟩
  dsimp only
  rw [← stores.states.reachable]
  split
  · exact .pure sessions stores
  refine .ite_bind ?_ fun extended sessions => ?_
  · cases target.implicit with
    | true => exact .pure sessions trivial
    | false => exact .checkConversion sessions values basic .assignment
  have values := values.grow extended
  have stores := stores.grow extended
  refine (Runs.intern sessions (Layout.state_of_variable covered) rfl).bind ?_
  rintro first2 second2 slot _ extended sessions ⟨rfl, inside⟩
  exact .write sessions (stores.grow extended) (values.grow extended) (inside_some inside)

/-- A step of a block runs in lockstep if its parts rise. -/
theorem step_runs {step : Step (Simple Meaning) Meaning}
    (rise : step.Over (Simple.Over (PlainVariable layout) (Rises layout)) (Rises layout))
    (sessions : Lockstep layout first second) (stores : one.Ordered first.slots two) :
    Runs layout Store.Ordered first second (step.run context one) (step.run context two) := by
  match step, rise with
  | .simple (.declare _ none), _ => exact .pure sessions stores
  | .simple (.declare target (some meaning)), ⟨plain, rises⟩ =>
      exact declare_runs plain (rises meaning rfl) sessions stores
  | .simple (.evaluate meaning), rises =>
      exact (Rises.value rises sessions stores).map Prod.snd And.right
  | .update meaning, rises =>
      exact (Rises.value rises sessions stores).map Prod.snd And.right

/-- The steps of a block run in lockstep one after the other. -/
theorem steps_runs {steps : List (Step (Simple Meaning) Meaning)}
    (rise : ∀ step ∈ steps,
      step.Over (Simple.Over (PlainVariable layout) (Rises layout)) (Rises layout))
    {first second : Session} {one two : Store} (sessions : Lockstep layout first second)
    (stores : one.Ordered first.slots two) :
    Runs layout Store.Ordered first second
      (steps.foldlM (fun store step => step.run context store) one)
      (steps.foldlM (fun store step => step.run context store) two) := by
  induction steps generalizing first second one two with
  | nil => exact .pure sessions stores
  | cons step rest ih =>
      obtain ⟨risesStep, riseRest⟩ := List.forall_mem_cons.mp rise
      rw [List.foldlM_cons, List.foldlM_cons]
      exact (step_runs risesStep sessions stores).bind
        fun _ sessions stores => ih riseRest sessions stores

/-- A case of a switch narrows ordered stores to ordered ones. -/
theorem narrow_ordered {table : SlotTable} {valueOne valueTwo : Value} (hasNullArm : Bool)
    (pattern? : Option Pattern) (values : valueOne.Ordered layout table valueTwo)
    (stores : one.Ordered table two) :
    (SwitchTarget.narrow valueOne hasNullArm one pattern?).Ordered table
      (SwitchTarget.narrow valueTwo hasNullArm two pattern?) := by
  have learn := fun state : FlowState => values.assign stores (FlowState.le_refl state)
  match pattern? with
  | some .null => exact learn .maybeNull
  | some (.type _) => exact learn .notNull
  | none =>
      cases hasNullArm with
      | false => exact stores
      | true => exact learn .notNull

/-- A body that returned a value expects the same as before. -/
theorem addReturn_runs (sessions : Lockstep layout first second) (one two : Returned) :
    Runs layout anything first second (Analysis.addReturn one) (Analysis.addReturn two) := by
  have kept : ∀ (returned : Returned) (session : Session),
      let after := (Analysis.addReturn returned session).2
      after.slots = session.slots ∧ after.recorder = session.recorder ∧
        after.expected? = session.expected? := by
    intro returned session
    obtain ⟨slots, recorder, frames, cancelled, checks⟩ := session
    cases frames <;> exact ⟨rfl, rfl, rfl⟩
  obtain ⟨slotsFirst, recorderFirst, expectedFirst⟩ := kept one first
  obtain ⟨slotsSecond, recorderSecond, expectedSecond⟩ := kept two second
  refine ⟨?_, ⟨?_, ?_, ?_, ?_, ?_⟩, trivial⟩
  · rw [slotsFirst]
    exact .refl _
  · rw [slotsFirst, slotsSecond]
    exact sessions.slots
  · rw [slotsFirst]
    exact sessions.fits
  · rw [recorderFirst, recorderSecond]
    exact sessions.recorders
  · rw [expectedFirst, expectedSecond]
    exact sessions.expected
  · rw [expectedFirst]
    exact sessions.basic

/-- Returned values are recorded in lockstep. -/
theorem recordReturn_runs {span : Span} {valueOne valueTwo : Value}
    (sessions : Lockstep layout first second) (stores : one.Ordered first.slots two)
    (values : valueOne.Ordered layout first.slots valueTwo) :
    Runs layout anything first second (Comparison.recordReturn context valueOne one span)
      (Comparison.recordReturn context valueTwo two span) := by
  unfold Comparison.recordReturn
  rw [← stores.states.reachable]
  split
  · exact (Runs.checkReturn sessions values).bind
      fun _ sessions _ => addReturn_runs sessions _ _
  · exact .pure sessions trivial

/-- The end of a block sends ordered stores along the same edges. -/
theorem terminator_runs {terminator : Terminator Meaning}
    (rise : ∀ meaning ∈ terminator.exprs, Rises layout meaning)
    (sessions : Lockstep layout first second) (stores : one.Ordered first.slots two) :
    Runs layout outflows first second (terminator.run context one)
      (terminator.run context two) := by
  match terminator with
  | .goto target => exact .pure sessions (.cons ⟨rfl, stores⟩ .nil)
  | .branch condition whenTrue whenFalse =>
      refine ((rise condition List.mem_cons_self).branches sessions stores).bind ?_
      rintro first' second' branchesOne branchesTwo _ sessions ⟨holds, fails⟩
      exact .pure sessions (.cons ⟨rfl, holds⟩ (.cons ⟨rfl, fails⟩ .nil))
  | .switch scrutinee targets =>
      refine ((rise scrutinee List.mem_cons_self).value sessions stores).bind ?_
      rintro first' second' ⟨valueOne, one⟩ ⟨valueTwo, two⟩ _ sessions ⟨values, stores⟩
      refine .pure sessions ?_
      generalize (targets.any fun arm => arm.pattern?.any Pattern.isNull) = hasNullArm
      induction targets with
      | nil => exact .nil
      | cons arm rest ih =>
          exact .cons ⟨rfl, narrow_ordered hasNullArm arm.pattern? values stores⟩ (ih rise)
  | .returnValue none _ => exact .pure sessions .nil
  | .returnValue (some meaning) span =>
      rw [Comparison.run_returnValue, Comparison.run_returnValue]
      refine ((rise meaning List.mem_cons_self).value sessions stores).bind ?_
      rintro first' second' ⟨valueOne, one⟩ ⟨valueTwo, two⟩ _ sessions ⟨values, stores⟩
      exact (recordReturn_runs sessions stores values).bind fun _ sessions _ => .pure sessions .nil
  | .throwValue none => exact .pure sessions .nil
  | .throwValue (some meaning) =>
      exact ((rise meaning List.mem_cons_self).value sessions stores).bind
        fun _ sessions _ => .pure sessions .nil
  | .exit => exact .pure sessions .nil

/-- A block makes of ordered stores ordered stores on all its edges. -/
theorem transfer_runs {block : Block (Simple Meaning) Meaning} (rise : RisingBlock layout block)
    (sessions : Lockstep layout first second) (stores : one.Ordered first.slots two) :
    Runs layout outflows first second (block.transfer context one)
      (block.transfer context two) :=
  (steps_runs rise.steps sessions stores).bind
    fun _ sessions stores => terminator_runs rise.terminator sessions stores

end Blocks

end NullFlow.Lockstep
