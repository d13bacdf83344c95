import NullFlow.Proofs.Analysis.Convergence
import NullFlow.Proofs.Runtime.Calls
import NullFlow.Proofs.Runtime.Values
import NullFlow.Proofs.Runtime.Conditions
/-!
The meaning of a plain expression is sound if the meanings of its parts are.
-/

namespace NullFlow

variable {layout : Layout} {context : Context}

/-- The analysis of an expression attends what the expression does when it runs. -/
def Expr.Sound (layout : Layout) (context : Context) (expr : Expr) : Prop :=
  (expr.meaning context).Sound layout context.method expr.behaviour

section Orderly

variable {outline : Outline} {meaning : Meaning} {stopRequested : Bool}

/-- A meaning that keeps to an outline is orderly if it takes no diagnostic back. -/
theorem Meaning.Orderly.of_tracks (records : meaning.Records)
    (tracks : ∀ target, ((Comparison.ofLayout layout .exact stopRequested).toward target).Tracks
      outline meaning) : meaning.Orderly layout where
  records := records
  value session store fits within := by
    have alone := ((tracks session.slots).value (.self fits within (.refl store))).aloneFirst
    exact ⟨alone.grows.slots, alone.grows.fits, alone.fits.2.within⟩
  branches session store fits within holds := by
    have alone := ((tracks session.slots).branches (.self fits within (.refl store))).aloneFirst
    refine ⟨alone.grows.slots, alone.grows.fits, ?_⟩
    cases holds
    · exact alone.fits.2
    · exact alone.fits.1
  flat session store fits within :=
    ((tracks session.slots).value (.self fits within (.refl store))).aloneFirst.fits.1.flat

/-- The meaning of a flat expression is orderly if it takes no diagnostic back. -/
theorem Expr.orderly_of_flat (flatThis : context.thisType?.all Ty.isFlat = true) {expr : Expr}
    (flat : (expr.outline layout false).flat = true) (records : (expr.meaning context).Records) :
    (expr.meaning context).Orderly layout := by
  have tracks : Comparison.MeaningTracks (Comparison.ofLayout layout .exact context.token.stops)
      context false expr :=
    Comparison.meaning_tracks flatThis rfl (fun lenient => by cases lenient) expr
  exact .of_tracks records (tracks flat)

end Orderly

section Arguments

variable {arguments : List (Argument Expr)}

/-- The arguments of a call are sound if their values are. -/
theorem soundArguments_of_parts
    (parts : ∀ child ∈ arguments.map Argument.value, child.Sound layout context) :
    SoundArguments layout context.method (delayArguments (Meaning.ofNode context) arguments)
      ((delayArguments Behaviour.ofNode arguments).map fun argument => argument.value.get) := by
  rw [delayArguments_eq_map, delayArguments_eq_map]
  induction arguments with
  | nil => exact .nil
  | cons argument rest ih =>
      obtain ⟨ofArgument, ofRest⟩ := List.forall_mem_cons.mp parts
      exact .cons ofArgument (ih ofRest)

/-- No argument is dynamic, so every call is checked. -/
theorem not_anyDynamic (parts : ∀ child ∈ arguments.map Argument.value,
      (child.meaning context).ty?.any Ty.isDynamic = false) :
    anyDynamic (delayArguments (Meaning.ofNode context) arguments) = false := by
  rw [delayArguments_eq_map, anyDynamic, List.any_map, List.any_eq_false]
  intro argument member
  exact Bool.eq_false_iff.mp (parts argument.value (List.mem_map_of_mem member))

end Arguments

section Nodes

variable {node : Node Variable Expr Code} (plain : node.kind.isPlain = true)
  (flatThis : context.thisType?.all Ty.isFlat = true)
  (flat : ((Expr.node node).outline layout false).flat = true)
  (parts : ∀ child ∈ node.kind.children, child.Sound layout context)
  (typed : ∀ child ∈ node.kind.children, (child.meaning context).ty?.any Ty.isDynamic = false)
  (receivers : ∀ receiver method arguments, node.kind = .call (some receiver) method arguments →
    (receiver.meaning context).IsNamed)
  (targets : ∀ target value, node.kind = .assign target value → ∃ source : Variable,
    layout.coversVariable source = true ∧
      (target.meaning context).target = variableTarget source ∧
      target.behaviour.source? = some source)
  (comparisons : ∀ operator left right, node.kind = .binary operator left right →
    operator = .equal ∨ operator = .notEqual → right.behaviour.Frames)
include plain flatThis flat parts typed receivers targets comparisons

/-- Whatever a plain expression does when it runs, its analysis attends it if that of its parts
does. -/
theorem node_sound : (Expr.node node).Sound layout context := by
  have orderly := Expr.orderly_of_flat flatThis flat
  obtain ⟨kind, ty?, span⟩ := node
  obtain ⟨_, flatKind⟩ := Bool.and_eq_true_iff.mp flat
  change Outline.flatKind layout (foldKind (Outline.ofNode layout false) kind) = true at flatKind
  cases kind with
  | read source =>
      have sound : SoundValue layout context.method (readRule source)
          fun memory => return (memory.isNull source.id, memory) := readRule_sound flatKind
      have records : (Meaning.ofValue span ty? (readRule source)).Records :=
        Records.ofValue (Records.readRule source)
      exact ⟨orderly ⟨records.value, records.branches, Records.variableTarget source, rfl⟩,
        sound.guard, (sound.branches span).guard, rfl, nofun, nofun⟩
  | literal value =>
      have sound : SoundValue layout context.method
          (fun store => return (literalValue ty? value, store)) (Behaviour.literal value) :=
        literal_sound value
      have records : (Meaning.ofValue span ty? fun store =>
          return (literalValue ty? value, store)).Records := Records.ofValue fun _ => .pure _
      refine ⟨orderly ⟨records.value, Records.guardBranches fun _ => .pure _, records.target, rfl⟩,
        sound.guard, (literalBranches_sound value).guard, rfl, fun isNull memory => ?_,
        fun isConstant memory => ?_⟩
      · exact .pure isNull
      · have differs : value ≠ .null := of_decide_eq_true isConstant
        exact .pure (decide_eq_false differs)
  | defaultValue =>
      exact sound_ofValue (orderly (Records.ofValue fun _ => .pure _)) default_sound
  | cast operand =>
      have ofOperand := parts operand List.mem_cons_self
      have sound : SoundValue layout context.method
          (castRule ty? (.mk fun _ => operand.meaning context)) (operand.behaviour.cast ty?) :=
        castRule_sound ofOperand
      have records : (Meaning.ofValue span ty?
          (castRule ty? (.mk fun _ => operand.meaning context))).Records :=
        Records.ofValue (Records.castRule ty? ofOperand.orderly.records)
      refine ⟨orderly ⟨records.value, records.branches, records.target, rfl⟩,
        sound.guard, (sound.branches span).guard, rfl, fun isNull memory => ?_, nofun⟩
      refine (ofOperand.null isNull memory).bind (fun _ => id) fun answer same => ?_
      split
      · exact .throw trivial
      · exact .pure same
  | call receiver? method arguments =>
      obtain ⟨ofReceiver, ofArguments⟩ := List.forall_mem_append.mp parts
      have static := not_anyDynamic (List.forall_mem_append.mp typed).2
      have closed : method.returnType.isClosed = true := (Bool.and_eq_true_iff.mp flatKind).2
      have sound := soundArguments_of_parts ofArguments
      have both : Option.Rel (fun receiver behaviour =>
          receiver.get.Sound layout context.method behaviour ∧ receiver.get.IsNamed)
          (delayOption (Meaning.ofNode context) receiver?)
          ((delayOption Behaviour.ofNode receiver?).map Thunk.get) := by
        cases receiver? with
        | none => exact .none
        | some receiver =>
            exact .some ⟨ofReceiver receiver List.mem_cons_self, receivers receiver method arguments rfl⟩
      have records : ∀ receiver ∈ delayOption (Meaning.ofNode context) receiver?,
          receiver.get.Records := by
        intro receiver member
        cases receiver? with
        | none => cases member
        | some expr =>
            obtain rfl := Option.some.inj member
            exact (ofReceiver expr List.mem_cons_self).orderly.records
      exact sound_ofValue (orderly (Records.ofValue (Records.callRule context method ty? records
        sound.records))) (callRule_sound closed static both sound)
  | create constructor? arguments initializers =>
      obtain ⟨rfl, rfl⟩ := ExprKind.of_plain_create plain
      refine sound_ofValue (orderly (Records.ofValue fun store => ?_))
        (createRule_sound constructor?)
      rw [show createRule context ty? constructor? (delayArguments (Meaning.ofNode context) [])
        (delayInitializers (Meaning.ofNode context) []) store = _ from createRule_eq constructor? store]
      exact .pure _
  | conditional condition whenTrue whenFalse =>
      obtain ⟨ofCondition, rest⟩ := List.forall_mem_cons.mp parts
      obtain ⟨ofTrue, rest⟩ := List.forall_mem_cons.mp rest
      have ofFalse := (List.forall_mem_cons.mp rest).1
      exact sound_ofValue (orderly (Records.ofValue (Records.conditionalRule context ty?
        ofCondition.orderly.records ofTrue.orderly.records ofFalse.orderly.records)))
        (conditionalRule_sound ofCondition ofTrue ofFalse)
  | coalesce left right =>
      obtain ⟨ofLeft, rest⟩ := List.forall_mem_cons.mp parts
      have ofRight := (List.forall_mem_cons.mp rest).1
      exact sound_ofValue (orderly (Records.ofValue (Records.coalesceRule context
        ofLeft.orderly.records ofRight.orderly.records))) (coalesceRule_sound ofLeft ofRight)
  | binary operator left right =>
      obtain ⟨ofLeft, rest⟩ := List.forall_mem_cons.mp parts
      have ofRight := (List.forall_mem_cons.mp rest).1
      have records : (Thunk.mk fun _ => left.meaning context).get.Records := ofLeft.orderly.records
      have more : (Thunk.mk fun _ => right.meaning context).get.Records := ofRight.orderly.records
      cases operator with
      | equal =>
          have frames := comparisons _ _ _ rfl (.inl rfl)
          exact sound_ofBranches (orderly (Records.ofBranches (Records.equalityRule records more
            false))) (equalityRule_sound false ofLeft ofRight frames)
      | notEqual =>
          have frames := comparisons _ _ _ rfl (.inr rfl)
          exact sound_ofBranches (orderly (Records.ofBranches (Records.equalityRule records more
            true))) (equalityRule_sound true ofLeft ofRight frames)
      | and =>
          exact sound_ofBranches (orderly (Records.ofBranches (Records.andRule records more)))
            (andRule_sound ofLeft ofRight)
      | or =>
          exact sound_ofBranches (orderly (Records.ofBranches (Records.orRule records more)))
            (orRule_sound ofLeft ofRight)
      | other => cases plain
  | unary operator operand =>
      cases operator with
      | not =>
          have ofOperand := parts operand List.mem_cons_self
          exact sound_ofBranches (orderly (Records.ofBranches (Records.notRule
            ofOperand.orderly.records))) (notRule_sound ofOperand)
      | other => cases plain
  | test operand pattern =>
      have ofOperand : (Thunk.mk fun _ => operand.meaning context).get.Sound layout context.method
          operand.behaviour := parts operand List.mem_cons_self
      exact sound_ofBranches (orderly (Records.ofBranches (Records.testRule
        ofOperand.orderly.records pattern))) (testRule_sound ofOperand pattern)
  | assign target value =>
      obtain ⟨ofTarget, rest⟩ := List.forall_mem_cons.mp parts
      have ofOperand := (List.forall_mem_cons.mp rest).1
      obtain ⟨source, covered, isTarget, isSource⟩ := targets target value rfl
      have behaves : (Expr.node ⟨.assign target value, ty?, span⟩).behaviour =
          .ofValue span (value.behaviour.assign source) := by
        change Behaviour.ofNode ⟨.assign (.mk fun _ => target.behaviour)
          (.mk fun _ => value.behaviour), ty?, span⟩ = _
        unfold Behaviour.ofNode
        dsimp only [Thunk.get]
        rw [isSource]
      unfold Expr.Sound
      rw [behaves]
      exact sound_ofValue (orderly (Records.ofValue (Records.assignRule context
        ofTarget.orderly.records ofOperand.orderly.records))) (assignRule_sound covered isTarget ofOperand)
  | _ => cases plain

end Nodes

end NullFlow
