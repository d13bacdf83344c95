import NullFlow.Proofs.Analysis.Discipline.Actions
/-!
The rules of expressions keep every discipline that the meanings of the parts keep.
-/

namespace NullFlow

/-- Whatever is asked of the meaning, it keeps the discipline. -/
structure Meaning.Obeys {context : Context} (discipline : Discipline context) (meaning : Meaning) :
    Prop where
  span : discipline.covers meaning.span
  value : ∀ store, discipline.InExpr (meaning.value store)
  branches : ∀ store, discipline.InExpr (meaning.branches store)
  target : ∀ store, discipline.InExpr (meaning.target store)
  lambda : ∀ analyze ∈ meaning.lambda?, ∀ delegate? : Option Ty,
    discipline.InExpr (analyze delegate?)

namespace Discipline.InExpr

variable {context : Context} {discipline : Discipline context} {ty? : Option Ty}

section Values

variable {operand receiver position left right target value : Part} {parts : List Part}

theorem readRule (source : Variable) (store : Store) :
    discipline.InExpr (readRule source store) :=
  .bind (.onSlots (.intern _ _)) fun _ => .bind .slots fun _ => .pure _

theorem thisRule (store : Store) : discipline.InExpr (thisRule context ty? store) :=
  .bind (.onSlots (.intern _ _)) fun _ => .pure _

theorem castRule (ofOperand : operand.get.Obeys discipline) (store : Store) :
    discipline.InExpr (castRule ty? operand store) :=
  .bind (ofOperand.value store) fun _ => .pure _

/-- Reading a place declares its slot anew, and the slot keeps its key. -/
theorem placeValue (declared : Ty) (slot? : Option SlotId) (store : Store) :
    discipline.InExpr (placeValue declared slot? store) := by
  cases slot? with
  | none => exact .pure _
  | some slot => exact .bind (.onSlots (.redeclare _ _)) fun _ => .bind .slots fun _ => .pure _

/-- A member is read from a receiver that obeys, and a null receiver is reported where it stands. -/
theorem memberRule (ofReceiver : receiver.get.Obeys discipline) (member : Member) (store : Store) :
    discipline.InExpr (memberRule context receiver member store) := by
  apply InExpr.bind (ofReceiver.value store)
  intro base
  apply (InExpr.dereference ofReceiver.span _ _).bind
  intro store
  split
  · exact .pure _
  · exact .bind (.onSlots (.member _ _ _)) fun _ => .bind (.placeValue _ _ _) fun _ => .pure _

theorem evaluateIndex (ofReceiver : receiver.get.Obeys discipline)
    (ofPosition : position.get.Obeys discipline) (store : Store) :
    discipline.InExpr (evaluateIndex context receiver position store) :=
  .bind (ofReceiver.value store) fun _ => .bind (ofPosition.value _) fun _ =>
    .bind (.dereference ofReceiver.span _ _) fun _ => .pure _

theorem indexRule (ofReceiver : receiver.get.Obeys discipline)
    (ofPosition : position.get.Obeys discipline) (store : Store) :
    discipline.InExpr (indexRule context ty? receiver position store) := by
  apply (InExpr.evaluateIndex ofReceiver ofPosition store).bind
  intro base
  dsimp only
  split
  · exact .bind (.onSlots (.element _ _)) fun _ => .bind (.placeValue _ _ _) fun _ => .pure _
  · split <;> exact .pure _

/-- Operands that obey may be evaluated in a row. -/
theorem evaluateAll (each : ∀ part ∈ parts, part.get.Obeys discipline) (store : Store) :
    discipline.InExpr (evaluateAll parts store) := by
  induction parts generalizing store with
  | nil => exact .pure _
  | cons part rest ih =>
      apply InExpr.bind ((each part List.mem_cons_self).value store)
      intro first
      apply InExpr.bind (ih (fun other member => each other (List.mem_cons_of_mem _ member)) _)
      intro others
      exact .pure _

theorem fillArray (element : Ty) (each : ∀ part ∈ parts, part.get.Obeys discipline)
    (store : Store) : discipline.InExpr (fillArray context element parts store) := by
  induction parts generalizing store with
  | nil => exact .pure _
  | cons part rest ih =>
      apply InExpr.bind ((each part List.mem_cons_self).value store)
      intro first
      apply (InExpr.checkConversion (each part List.mem_cons_self).span _ _ _).bind
      intro _
      exact ih (fun other member => each other (List.mem_cons_of_mem _ member)) _

theorem arrayRule (element? : Option Ty) (each : ∀ part ∈ parts, part.get.Obeys discipline)
    (store : Store) : discipline.InExpr (arrayRule context element? parts store) := by
  cases element? with
  | some element => exact .bind (.fillArray element each store) fun _ => .pure _
  | none =>
      apply (InExpr.evaluateAll each store).bind
      intro evaluated
      dsimp only
      split
      · exact .pure _
      · exact .pure _
      · apply InExpr.bind
        · apply (sequential discipline).forM
          rintro ⟨item, value⟩ member
          dsimp only
          split
          · exact .checkShape (each item (List.of_mem_zip member).1).span _ _
          · exact .pure _
        · exact fun _ => .pure _

theorem operationRule (each : ∀ part ∈ parts, part.get.Obeys discipline) (store : Store) :
    discipline.InExpr (operationRule ty? parts store) :=
  .bind (.evaluateAll each store) fun _ => .pure _

theorem badRule (each : ∀ part ∈ parts, part.get.Obeys discipline) (store : Store) :
    discipline.InExpr (badRule parts store) :=
  .bind (.evaluateAll each store) fun _ => .pure _

theorem suppressRule (ofOperand : operand.get.Obeys discipline) (store : Store) :
    discipline.InExpr (suppressRule operand store) :=
  .bind (ofOperand.value store) fun _ => .pure _

/-- An assignment reports at the span of its value. -/
theorem assignRule (ofTarget : target.get.Obeys discipline) (ofValue : value.get.Obeys discipline)
    (store : Store) : discipline.InExpr (assignRule context target value store) := by
  rw [Comparison.assignRule_eq]
  exact .bind (ofTarget.target store) fun _ => .bind (ofValue.value _) fun _ =>
    .bind (.checkTarget ofValue.span _ _) fun _ => .bind (.record _ _ _) fun _ => .pure _

end Values

section Calls

variable {signature : Signature} {arguments : List (Argument Part)}

/-- Arguments that obey may be evaluated in a row. -/
theorem evaluateArguments (each : ∀ argument ∈ arguments, argument.value.get.Obeys discipline)
    (position : Nat) (bindings : Bindings) (store : Store) : discipline.InExpr
      (evaluateArguments context signature position arguments bindings store) := by
  induction arguments generalizing position bindings store with
  | nil => exact .pure _
  | cons argument rest ih =>
      have ofRest := ih fun other member => each other (List.mem_cons_of_mem _ member)
      unfold NullFlow.evaluateArguments
      split
      · exact ofRest _ _ _
      · apply InExpr.bind ((each argument List.mem_cons_self).value store)
        intro first
        exact .bind (ofRest _ _ _) fun _ => .pure _

/-- Lambdas among the arguments are analyzed as expressions of the call. -/
theorem evaluateLambdas (each : ∀ argument ∈ arguments, argument.value.get.Obeys discipline)
    (types : Instantiation) (position : Nat) (bindings : Bindings) : discipline.InExpr
      (evaluateLambdas context signature types position arguments bindings) := by
  induction arguments generalizing position bindings with
  | nil => exact .pure _
  | cons argument rest ih =>
      have ofRest := ih fun other member => each other (List.mem_cons_of_mem _ member)
      unfold NullFlow.evaluateLambdas
      split
      · exact ofRest _ _
      · rename_i analyze isLambda
        exact .bind ((each argument List.mem_cons_self).lambda analyze isLambda _) fun _ =>
          ofRest _ _

/-- Evaluated arguments keep their ranges. -/
theorem span_of_evaluated {position : Nat} {bindings : Bindings} {store : Store}
    {evaluated : List Evaluated × Bindings × Store}
    (yields : Analysis.Yields
      (NullFlow.evaluateArguments context signature position arguments bindings store) evaluated) :
    ∀ argument ∈ evaluated.1, ∃ source ∈ arguments, argument.span = source.value.span := by
  induction arguments generalizing position bindings store evaluated with
  | nil =>
      obtain rfl := yields.of_pure
      exact fun _ never => by cases never
  | cons head rest ih =>
      intro argument member
      have ofRest : (∃ source ∈ rest, argument.span = source.value.span) →
          ∃ source ∈ head :: rest, argument.span = source.value.span :=
        fun ⟨source, inRest, same⟩ => ⟨source, List.mem_cons_of_mem _ inRest, same⟩
      unfold NullFlow.evaluateArguments at yields
      split at yields
      · exact ofRest (ih yields argument member)
      · obtain ⟨session, same⟩ := yields
        subst same
        rcases List.mem_cons.mp member with rfl | later
        · exact ⟨head, List.mem_cons_self, rfl⟩
        · exact ofRest (ih ⟨_, rfl⟩ argument later)

/-- A check of an argument reports at the span of the argument. -/
theorem checkArgument (types : Instantiation) {argument : Evaluated}
    (inside : discipline.covers argument.span) :
    discipline.InExpr (checkArgument context signature types argument) := by
  unfold NullFlow.checkArgument
  split
  · exact .pure _
  · exact .checkConversion inside _ _ _

theorem passArguments (each : ∀ argument ∈ arguments, argument.value.get.Obeys discipline)
    (types : Instantiation) (dynamic : Bool) (store : Store) :
    discipline.InExpr (passArguments context signature arguments types dynamic store) := by
  apply (InExpr.evaluateArguments each 0 [] store).after
  intro evaluated yields
  apply (InExpr.evaluateLambdas each types 0 _).bind
  intro bindings
  refine .ite _ (.bind ((sequential discipline).forM fun argument member => ?_) fun _ => .pure _)
    (.pure _)
  obtain ⟨source, inArguments, same⟩ := span_of_evaluated yields argument member
  exact .checkArgument _ (same ▸ (each source inArguments).span)

theorem evaluateReceiver {receiver? : Option Part}
    (ofReceiver : ∀ receiver ∈ receiver?, receiver.get.Obeys discipline) (store : Store) :
    discipline.InExpr (evaluateReceiver context receiver? store) := by
  cases receiver? with
  | none => exact .pure _
  | some receiver =>
      exact .bind ((ofReceiver receiver rfl).value store) fun _ =>
        .bind (.dereference (ofReceiver receiver rfl).span _ _) fun _ => .pure _

/-- A call obeys if its receiver and its arguments do. -/
theorem callRule {receiver? : Option Part}
    (ofReceiver : ∀ receiver ∈ receiver?, receiver.get.Obeys discipline)
    (each : ∀ argument ∈ arguments, argument.value.get.Obeys discipline) (store : Store) :
    discipline.InExpr (callRule context ty? receiver? signature arguments store) :=
  .bind (.evaluateReceiver ofReceiver store) fun _ => .bind (.passArguments each _ _ _) fun _ =>
    .pure _

mutual

/-- An entry of an initializer reports at the span of its value. -/
theorem seedMember (owner? : Option Ty) (path : List (String × FlowState))
    {rest : List (Initializer Part)}
    (ofRest : ∀ store, discipline.InExpr (seedMembers context owner? path rest store)) :
    ∀ {entry : Initializer Part}, (∀ part ∈ entry.values, part.get.Obeys discipline) →
    ∀ store, discipline.InExpr (seedMembers context owner? path (entry :: rest) store)
  | .value member part, each, store => by
      rw [NullFlow.seedMembers]
      apply InExpr.bind ((each part List.mem_cons_self).value store)
      intro value
      dsimp only
      split
      · apply (InExpr.checkConversion (each part List.mem_cons_self).span _ _ _).bind
        intro _
        exact .bind (ofRest _) fun _ => .pure _
      · exact .bind (ofRest _) fun _ => .pure _
  | .nested member entries, each, store => by
      rw [NullFlow.seedMembers]
      exact .bind (seedMembers _ _ each store) fun _ => .bind (ofRest _) fun _ => .pure _

theorem seedMembers (owner? : Option Ty) (path : List (String × FlowState)) :
    ∀ {entries : List (Initializer Part)},
    (∀ part ∈ initializerValues entries, part.get.Obeys discipline) →
    ∀ store, discipline.InExpr (seedMembers context owner? path entries store)
  | [], _, store => by
      rw [NullFlow.seedMembers]
      exact .pure _
  | _ :: _, each, store =>
      seedMember owner? path
        (seedMembers owner? path fun later member => each later (List.mem_append_right _ member))
        (fun part member => each part (List.mem_append_left _ member)) store

end

theorem construct (constructor? : Option Signature)
    (each : ∀ argument ∈ arguments, argument.value.get.Obeys discipline) (store : Store) :
    discipline.InExpr (construct context ty? constructor? arguments store) := by
  cases constructor? with
  | none =>
      apply (sequential discipline).foldlM
      intro argument member store
      exact .bind ((each argument member).value store) fun _ => .pure _
  | some signature => exact .bind (.passArguments each _ _ _) fun _ => .pure _

/-- A creation obeys if its arguments and its initializers do. -/
theorem createRule {constructor? : Option Signature} {initializers : List (Initializer Part)}
    (each : ∀ argument ∈ arguments, argument.value.get.Obeys discipline)
    (entries : ∀ part ∈ initializerValues initializers, part.get.Obeys discipline) (store : Store) :
    discipline.InExpr (createRule context ty? constructor? arguments initializers store) :=
  .bind (.construct constructor? each store) fun _ => .bind (.seedMembers ty? [] entries _)
    fun _ => .pure _

end Calls

section Targets

variable {receiver position : Part}

theorem variableTarget (source : Variable) (store : Store) :
    discipline.InExpr (variableTarget source store) :=
  .bind (.onSlots (.intern _ _)) fun _ => .pure _

theorem memberTarget (ofReceiver : receiver.get.Obeys discipline) (member : Member)
    (store : Store) : discipline.InExpr (memberTarget context receiver member store) := by
  apply InExpr.bind (ofReceiver.value store)
  intro base
  apply (InExpr.dereference ofReceiver.span _ _).bind
  intro store
  dsimp only
  cases context.memberType? base.1.ty? member with
  | none =>
      apply InExpr.after (.pure none)
      intro slot? yields
      obtain rfl := yields.of_pure
      exact .bind .slots fun _ => .pure _
  | some declared =>
      apply InExpr.bind (.onSlots (.member _ _ _))
      intro slot?
      cases slot? with
      | none => exact .bind .slots fun _ => .pure _
      | some slot => exact .pure _

theorem indexTarget (ofReceiver : receiver.get.Obeys discipline)
    (ofPosition : position.get.Obeys discipline) (store : Store) :
    discipline.InExpr (indexTarget context ty? receiver position store) := by
  apply (InExpr.evaluateIndex ofReceiver ofPosition store).bind
  intro base
  dsimp only
  split
  · exact .bind (.onSlots (.element _ _)) fun _ => .pure _
  · exact .pure _

end Targets

section Conditions

variable {operand left right condition whenTrue whenFalse : Part}

theorem notRule (ofOperand : operand.get.Obeys discipline) (store : Store) :
    discipline.InExpr (notRule operand store) := .bind (ofOperand.branches store) fun _ => .pure _

theorem andRule (ofLeft : left.get.Obeys discipline) (ofRight : right.get.Obeys discipline)
    (store : Store) : discipline.InExpr (andRule left right store) :=
  .bind (ofLeft.branches store) fun _ => .bind (ofRight.branches _) fun _ =>
    .bind .slots fun _ => .pure _

theorem orRule (ofLeft : left.get.Obeys discipline) (ofRight : right.get.Obeys discipline)
    (store : Store) : discipline.InExpr (orRule left right store) :=
  .bind (ofLeft.branches store) fun _ => .bind (ofRight.branches _) fun _ =>
    .bind .slots fun _ => .pure _

/-- A comparison reports nothing of its own. -/
theorem equalityRule (negated : Bool) (ofLeft : left.get.Obeys discipline)
    (ofRight : right.get.Obeys discipline) (store : Store) :
    discipline.InExpr (equalityRule negated left right store) :=
  .bind (ofLeft.value store) fun _ => .bind (ofRight.value _) fun _ => .pure _

theorem testRule (pattern : Pattern) (ofOperand : operand.get.Obeys discipline) (store : Store) :
    discipline.InExpr (testRule operand pattern store) :=
  .bind (ofOperand.value store) fun _ => .pure _

/-- A conditional obeys if all three of its parts do. -/
theorem conditionalRule (ofCondition : condition.get.Obeys discipline)
    (ofTrue : whenTrue.get.Obeys discipline) (ofFalse : whenFalse.get.Obeys discipline)
    (store : Store) :
    discipline.InExpr (conditionalRule context ty? condition whenTrue whenFalse store) :=
  .bind (ofCondition.branches store) fun _ => .bind (ofTrue.value _) fun _ =>
    .bind (ofFalse.value _) fun _ => .bind .slots fun _ => .pure _

/-- A fallback that is never used is a hint at the span of the left operand. -/
theorem coalesceRule (ofLeft : left.get.Obeys discipline) (ofRight : right.get.Obeys discipline)
    (store : Store) : discipline.InExpr (coalesceRule context left right store) := by
  apply InExpr.bind (ofLeft.value store)
  intro first
  refine .ite _ (.pure _) (.ite _ (.bind (.emit ofLeft.span (.neverNull _) rfl) fun _ => ?_) ?_)
  all_goals
    apply InExpr.bind (ofRight.value _)
    intro second
    apply InExpr.slots.bind
    intro table
    dsimp only
    split
    · exact .bind (.checkShape ofRight.span _ _) fun _ => .pure _
    · exact .pure _

end Conditions

section Meanings

variable {span : Span}

theorem guardValue {rule : Store → Analysis (Value × Store)}
    (obeys : ∀ store, discipline.InExpr (rule store)) (store : Store) :
    discipline.InExpr (Meaning.guardValue rule store) := .ite _ (obeys store) (.pure _)

theorem guardBranches {rule : Store → Analysis Branches}
    (obeys : ∀ store, discipline.InExpr (rule store)) (store : Store) :
    discipline.InExpr (Meaning.guardBranches rule store) := .ite _ (obeys store) (.pure _)

variable (covered : discipline.covers span)
include covered

/-- A node given by the rule of its value obeys if the rule does. -/
theorem ofValue {rule : Store → Analysis (Value × Store)}
    (obeys : ∀ store, discipline.InExpr (rule store)) :
    (Meaning.ofValue span ty? rule).Obeys discipline where
  span := covered
  value := guardValue obeys
  branches := guardBranches fun store => .bind (obeys store) fun _ => .pure _
  target store := .bind (guardValue obeys store) fun _ => .pure _
  lambda analyze isLambda := by cases isLambda

/-- A node given by the rule of its branches obeys if the rule does. -/
theorem ofBranches {rule : Store → Analysis Branches}
    (obeys : ∀ store, discipline.InExpr (rule store)) :
    (Meaning.ofBranches span ty? rule).Obeys discipline := by
  have rule (store : Store) : discipline.InExpr (do
      let branches ← rule store
      return (Value.loose .notNull ty?,
        branches.whenTrue.join (← Analysis.slots) branches.whenFalse)) :=
    .bind (obeys store) fun _ => .bind .slots fun _ => .pure _
  have value : (Meaning.ofValue span ty? _).Obeys discipline := ofValue covered rule
  exact ⟨covered, value.value, guardBranches obeys, value.target, value.lambda⟩

end Meanings

end Discipline.InExpr

namespace Meaning.Obeys

variable {context : Context} {discipline : Discipline context} {meaning : Meaning}
  (obeys : meaning.Obeys discipline)
include obeys

theorem marked (isNull isConstant : Bool) :
    Meaning.Obeys discipline { meaning with isNull, isConstant } :=
  ⟨obeys.span, obeys.value, obeys.branches, obeys.target, obeys.lambda⟩

theorem withTarget {target : Store → Analysis (Target × Store)}
    (ofTarget : ∀ store, discipline.InExpr (target store)) :
    Meaning.Obeys discipline { meaning with target } :=
  ⟨obeys.span, obeys.value, obeys.branches, ofTarget, obeys.lambda⟩

theorem withBranches {rule : Store → Analysis Branches}
    (ofRule : ∀ store, discipline.InExpr (rule store)) :
    Meaning.Obeys discipline { meaning with branches := guardBranches rule } :=
  ⟨obeys.span, obeys.value, Discipline.InExpr.guardBranches ofRule, obeys.target, obeys.lambda⟩

theorem withLambda {analyze : Option Ty → Analysis (Option Value)}
    (ofLambda : ∀ delegate?, discipline.InExpr (analyze delegate?)) :
    Meaning.Obeys discipline { meaning with lambda? := some analyze } := by
  refine ⟨obeys.span, obeys.value, obeys.branches, obeys.target, ?_⟩
  intro other isLambda
  obtain rfl : analyze = other := Option.some.inj isLambda
  exact ofLambda

end Meaning.Obeys

end NullFlow
