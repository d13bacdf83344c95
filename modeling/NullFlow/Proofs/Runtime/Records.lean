import NullFlow.Proofs.Analysis.Rules.Calls
import NullFlow.Proofs.Analysis.Transfer
import NullFlow.Proofs.Runtime.Memory
/-!
What an analysis has reported stays reported. No action takes a diagnostic back, and whatever is
reported of plain code is recorded unless the recorder is mute.
-/

namespace NullFlow

/-- The second recorder has all diagnostics of the first one, and it is mute if that one is. -/
structure Recorder.Precedes (before after : Recorder) : Prop where
  muted : after.muted = before.muted
  items : ∀ diagnostic ∈ before.items, diagnostic ∈ after.items

namespace Recorder.Precedes

variable {first second third : Recorder}

theorem refl (recorder : Recorder) : Precedes recorder recorder := ⟨rfl, fun _ => id⟩

/-- What is kept twice in a row is kept. -/
theorem trans (early : Precedes first second) (late : Precedes second third) :
    Precedes first third :=
  ⟨late.muted.trans early.muted, fun diagnostic member =>
    late.items diagnostic (early.items diagnostic member)⟩

/-- A recorder grows by a diagnostic or stays. -/
theorem emit (recorder : Recorder) (diagnostic : Diagnostic) :
    Precedes recorder (recorder.emit diagnostic) := by
  unfold Recorder.emit
  split
  · exact refl recorder
  · exact ⟨rfl, fun _ member => List.mem_append_left _ member⟩

end Recorder.Precedes

/-- A warning is recorded unless the recorder is mute. -/
theorem Recorder.mem_emit {recorder : Recorder} (speaks : recorder.muted = false)
    {diagnostic : Diagnostic} (warns : diagnostic.severity = .warning) :
    diagnostic ∈ (recorder.emit diagnostic).items := by
  rw [Recorder.emit, speaks, warns]
  exact List.mem_append_right _ List.mem_cons_self

/-- The receiver that stopped an execution is reported, unless the recorder is mute. -/
def Session.Reports (method : String) (last : Memory) (session : Session) : Prop :=
  ∀ span, last.nullReceiver? = some span → session.recorder.muted = false →
    Diagnostic.dereference span method ∈ session.recorder.items

/-- A dereference that was reported stays reported. -/
theorem Session.Reports.later {method : String} {last : Memory} {before after : Session}
    (reports : before.Reports method last) (precedes : before.recorder.Precedes after.recorder) :
    after.Reports method last := by
  intro span stopped speaks
  exact precedes.items _ (reports span stopped (precedes.muted ▸ speaks))

/-- No null receiver stopped the execution. -/
theorem Session.reports_none (method : String) (session : Session) {last : Memory}
    (other : last.nullReceiver? = none) : session.Reports method last := by
  intro span stopped
  rw [other] at stopped
  cases stopped

/-- The action takes no diagnostic back. -/
def Records {Result : Type} (action : Analysis Result) : Prop :=
  ∀ session : Session, session.recorder.Precedes (action session).2.recorder

namespace Records

variable {Result Other Item : Type}

theorem pure (result : Result) : Records (pure result : Analysis Result) := fun _ => .refl _

/-- Actions that only add to the recorder do so one after the other. -/
theorem bind {action : Analysis Result} {next : Result → Analysis Other} (early : Records action)
    (late : ∀ result, Records (next result)) : Records (action >>= next) := fun session =>
  (early session).trans (late (action session).1 (action session).2)

theorem ite {left right : Analysis Result} (decision : Bool) (whenTrue : Records left)
    (whenFalse : Records right) : Records (if decision then left else right) := by
  cases decision
  · exact whenFalse
  · exact whenTrue

/-- A loop only adds to the recorder if every round does. -/
theorem foldlM {body : Result → Item → Analysis Result} {items : List Item}
    (each : ∀ item ∈ items, ∀ result, Records (body result item)) (start : Result) :
    Records (items.foldlM body start) := by
  induction items generalizing start with
  | nil => exact .pure _
  | cons item rest ih =>
      rw [List.foldlM_cons]
      refine .bind (each item List.mem_cons_self start) fun result => ?_
      exact ih (fun other member => each other (List.mem_cons_of_mem _ member)) result

theorem forM {body : Item → Analysis PUnit} {items : List Item}
    (each : ∀ item ∈ items, Records (body item)) : Records (items.forM body) := by
  induction items with
  | nil => exact .pure _
  | cons item rest ih =>
      exact .bind (each item List.mem_cons_self) fun _ =>
        ih fun other member => each other (List.mem_cons_of_mem _ member)

theorem slots : Records Analysis.slots := fun _ => .refl _

/-- Actions on slots leave the recorder alone. -/
theorem onSlots (action : StateM SlotTable Result) : Records (Analysis.onSlots action) :=
  fun _ => .refl _

theorem emit (diagnostic : Diagnostic) : Records (Analysis.emit diagnostic) := fun _ =>
  .emit _ diagnostic

theorem frame : Records Analysis.frame := fun _ => .refl _

/-- A change of the returns takes nothing from what is recorded. -/
theorem modifyReturns (change : List Returned → List Returned) :
    Records (Analysis.modifyReturns change) := by
  intro session
  obtain ⟨slots, recorder, frames, cancelled, checks⟩ := session
  cases frames <;> exact .refl _

section Checks

variable (context : Context)

/-- A dereference takes nothing from what is recorded, whether or not it adds to it. -/
theorem dereference (receiver : Value) (span : Span) (store : Store) :
    Records (context.dereference receiver span store) :=
  .ite _ (.pure _) (.ite _ (.bind (.emit _) fun _ => .pure _) (.pure _))

theorem checkShape (source target : Ty) (span : Span) :
    Records (context.checkShape source target span) := .ite _ (.emit _) (.pure _)

theorem checkConversion (value : Value) (target : Ty) (span : Span) (site : Site) :
    Records (context.checkConversion value target span site) := by
  unfold Context.checkConversion
  split
  · exact .pure _
  · exact .pure _
  · exact .ite _ (.bind (.emit _) fun _ => .checkShape _ _ _ _) (.checkShape _ _ _ _)

theorem recordReturn (value : Value) (store : Store) (span : Span) :
    Records (Comparison.recordReturn context value store span) := by
  have check : Records (context.checkReturn value span) := by
    refine .bind .frame fun frame => ?_
    split
    · exact .checkConversion _ _ _ _ _
    · exact .pure _
  exact .ite _ (.bind check fun _ => .modifyReturns _) (.pure _)

theorem checkTarget (place : Target) (result : Value) (span : Span) :
    Records (Comparison.checkTarget context place result span) := by
  unfold Comparison.checkTarget
  split
  · exact .ite _ (.checkConversion _ _ _ _ _) (.pure _)
  · exact .pure _

/-- The result of an assignment goes to the store and takes nothing from what is recorded. -/
theorem record (place : Target) (result : Value) (store : Store) :
    Records (Comparison.record place result store) :=
  .ite _ (.bind .slots fun _ => .pure _) (.onSlots _)

end Checks

end Records

section Fallbacks

variable (context : Context)

/-- The end of a fallback. Both sides are known by their values. -/
def conclude (first second : Value) (span : Span) (store : Store) : Analysis (Value × Store) := do
  match knownType? first, second.ty? with
  | some target, some source => context.checkShape source target span
  | _, _ => pure ()
  let ty? := (knownType? first).orElse fun _ => second.ty?
  return (.loose second.state (ty?.map (Ty.withState second.state)), store)

/-- What a fallback does when its left side is evaluated. -/
def fallback (first : Value) (right : Part) (store : Store) : Analysis (Value × Store) := do
  let second ← right.value (store.assign first.slot? .maybeNull)
  let table ← Analysis.slots
  conclude context first second.1 right.span
    ((store.assign first.slot? .notNull).join table second.2)

/-- A fallback checks its left operand, and then concludes from both. -/
theorem coalesceRule_eq (left right : Part) (store : Store) :
    coalesceRule context left right store = (do
      let first ← left.value store
      if left.isConstant then return (.loose first.1.state first.1.ty?, first.2)
      if !first.1.state.isMaybeNull && (knownType? first.1).isSome then
        Analysis.emit (.neverNull left.span context.method)
      fallback context first.1 right first.2) := rfl

end Fallbacks

/-- Whatever the analysis does with an expression, it takes no diagnostic back. -/
structure Meaning.Records (meaning : Meaning) : Prop where
  value : ∀ store, NullFlow.Records (meaning.value store)
  branches : ∀ store, NullFlow.Records (meaning.branches store)
  target : ∀ store, NullFlow.Records (meaning.target store)
  /-- The expression is no lambda. -/
  lambda : meaning.lambda? = none

namespace Records

section Guards

variable {span : Span} {ty? : Option Ty}

/-- A guarded rule only adds to the recorder if the rule does. -/
theorem guardValue {rule : Store → Analysis (Value × Store)}
    (records : ∀ store, Records (rule store)) (store : Store) :
    Records (Meaning.guardValue rule store) := .ite _ (records store) (.pure _)

theorem guardBranches {rule : Store → Analysis Branches} (records : ∀ store, Records (rule store))
    (store : Store) : Records (Meaning.guardBranches rule store) := .ite _ (records store) (.pure _)

/-- A node given by the rule of its value only adds to the recorder if the rule does. -/
theorem ofValue {rule : Store → Analysis (Value × Store)}
    (records : ∀ store, Records (rule store)) : (Meaning.ofValue span ty? rule).Records where
  value := guardValue records
  branches := guardBranches fun store => .bind (records store) fun _ => .pure _
  target store := .bind (guardValue records store) fun _ => .pure _
  lambda := rfl

/-- A node given by the rule of its branches only adds to the recorder if the rule does. -/
theorem ofBranches {rule : Store → Analysis Branches} (records : ∀ store, Records (rule store)) :
    (Meaning.ofBranches span ty? rule).Records := by
  have value : (Meaning.ofValue span ty? _).Records := ofValue fun store =>
    .bind (records store) fun branches => .bind .slots fun table => .pure
      (Value.loose .notNull ty?, branches.whenTrue.join table branches.whenFalse)
  exact ⟨value.value, guardBranches records, value.target, rfl⟩

end Guards

section Rules

variable (context : Context) (ty? : Option Ty) {operand left right condition whenTrue whenFalse : Part}

theorem readRule (source : Variable) (store : Store) : Records (readRule source store) :=
  .bind (.onSlots _) fun _ => .bind .slots fun _ => .pure _

theorem variableTarget (source : Variable) (store : Store) : Records (variableTarget source store) :=
  .bind (.onSlots _) fun _ => .pure _

theorem castRule (records : operand.get.Records) (store : Store) :
    Records (castRule ty? operand store) := .bind (records.value store) fun _ => .pure _

/-- A conditional only adds to the recorder if its three parts do. -/
theorem conditionalRule (ofCondition : condition.get.Records) (ofTrue : whenTrue.get.Records)
    (ofFalse : whenFalse.get.Records) (store : Store) :
    Records (conditionalRule context ty? condition whenTrue whenFalse store) :=
  .bind (ofCondition.branches store) fun _ => .bind (ofTrue.value _) fun _ =>
    .bind (ofFalse.value _) fun _ => .bind .slots fun _ => .pure _

theorem notRule (records : operand.get.Records) (store : Store) : Records (notRule operand store) :=
  .bind (records.branches store) fun _ => .pure _

theorem andRule (ofLeft : left.get.Records) (ofRight : right.get.Records) (store : Store) :
    Records (andRule left right store) :=
  .bind (ofLeft.branches store) fun _ => .bind (ofRight.branches _) fun _ =>
    .bind .slots fun _ => .pure _

theorem orRule (ofLeft : left.get.Records) (ofRight : right.get.Records) (store : Store) :
    Records (orRule left right store) :=
  .bind (ofLeft.branches store) fun _ => .bind (ofRight.branches _) fun _ =>
    .bind .slots fun _ => .pure _

theorem equalityRule (ofLeft : left.get.Records) (ofRight : right.get.Records) (negated : Bool)
    (store : Store) : Records (equalityRule negated left right store) :=
  .bind (ofLeft.value store) fun _ => .bind (ofRight.value _) fun _ => .pure _

theorem testRule (records : operand.get.Records) (pattern : Pattern) (store : Store) :
    Records (testRule operand pattern store) := .bind (records.value store) fun _ => .pure _

theorem assignRule (ofTarget : left.get.Records) (ofValue : right.get.Records) (store : Store) :
    Records (assignRule context left right store) := by
  rw [Comparison.assignRule_eq]
  exact .bind (ofTarget.target store) fun _ => .bind (ofValue.value _) fun _ =>
    .bind (.checkTarget _ _ _ _) fun _ => .bind (.record _ _ _) fun _ => .pure _

end Rules

section Calls

variable (context : Context) (signature : Signature) {arguments : List (Argument Part)}

/-- All arguments keep to this. None of them is a lambda. -/
def OfArguments (arguments : List (Argument Part)) : Prop :=
  ∀ argument ∈ arguments, argument.value.get.Records

theorem OfArguments.tail {argument : Argument Part}
    (records : OfArguments (argument :: arguments)) : OfArguments arguments :=
  fun other member => records other (List.mem_cons_of_mem _ member)

/-- Evaluating arguments only adds to what is recorded if every argument does. -/
theorem evaluateArguments (records : OfArguments arguments) (position : Nat) (bindings : Bindings)
    (store : Store) :
    Records (evaluateArguments context signature position arguments bindings store) := by
  induction arguments generalizing position bindings store with
  | nil => exact .pure _
  | cons argument rest ih =>
      have ofValue := records argument List.mem_cons_self
      have notLambda : argument.value.lambda? = none := ofValue.lambda
      unfold NullFlow.evaluateArguments
      rw [notLambda]
      exact .bind (ofValue.value store) fun _ => .bind (ih records.tail _ _ _) fun _ => .pure _

/-- There is no lambda to analyze among the arguments. -/
theorem evaluateLambdas_eq (records : OfArguments arguments) (types : Instantiation)
    (position : Nat) (bindings : Bindings) :
    evaluateLambdas context signature types position arguments bindings = Pure.pure bindings := by
  induction arguments generalizing position with
  | nil => rfl
  | cons argument rest ih =>
      have notLambda : argument.value.lambda? = none :=
        (records argument List.mem_cons_self).lambda
      unfold evaluateLambdas
      rw [notLambda]
      exact ih records.tail (position + 1)

/-- What is done with arguments that were evaluated. -/
def settle (types : Instantiation) (dynamic : Bool) (evaluated : List Evaluated × Bindings × Store) :
    Analysis (Instantiation × Store) := do
  let types := types.extend evaluated.2.1.instantiation
  if !dynamic then evaluated.1.forM (checkArgument context signature types)
  return (types, evaluated.2.2)

/-- Passing the arguments evaluates them and then settles what they say of type parameters. -/
theorem passArguments_eq (records : OfArguments arguments) (types : Instantiation) (dynamic : Bool)
    (store : Store) : passArguments context signature arguments types dynamic store =
      NullFlow.evaluateArguments context signature 0 arguments [] store >>=
        settle context signature types dynamic := by
  refine congrArg _ (funext fun evaluated => ?_)
  obtain ⟨evaluated, bindings, later⟩ := evaluated
  dsimp only
  rw [evaluateLambdas_eq context signature records]
  rfl

/-- Settling a call only adds to what is recorded. -/
theorem settle_records (types : Instantiation) (dynamic : Bool)
    (evaluated : List Evaluated × Bindings × Store) :
    Records (settle context signature types dynamic evaluated) := by
  have check : ∀ types, Records (evaluated.1.forM (checkArgument context signature types)) := by
    refine fun types => .forM fun argument _ => ?_
    unfold checkArgument
    split
    · exact .pure _
    · exact .checkConversion _ _ _ _ _
  exact .ite _ (.bind (check _) fun _ => .pure _) (.pure _)

theorem passArguments (records : OfArguments arguments) (types : Instantiation) (dynamic : Bool)
    (store : Store) :
    Records (passArguments context signature arguments types dynamic store) := by
  rw [passArguments_eq context signature records]
  exact .bind (evaluateArguments context signature records 0 [] store)
    (settle_records context signature types dynamic)

theorem evaluateReceiver {receiver? : Option Part}
    (records : ∀ receiver ∈ receiver?, receiver.get.Records) (store : Store) :
    Records (evaluateReceiver context receiver? store) := by
  cases receiver? with
  | none => exact .pure _
  | some receiver =>
      exact .bind ((records receiver rfl).value store) fun _ =>
        .bind (.dereference _ _ _ _) fun _ => .pure _

/-- A call only adds to what is recorded if its receiver and its arguments do. -/
theorem callRule {receiver? : Option Part} (ty? : Option Ty)
    (ofReceiver : ∀ receiver ∈ receiver?, receiver.get.Records)
    (ofArguments : OfArguments arguments) (store : Store) :
    Records (callRule context ty? receiver? signature arguments store) :=
  .bind (evaluateReceiver context ofReceiver store) fun _ =>
    .bind (passArguments context signature ofArguments _ _ _) fun _ => .pure _

end Calls

section Choices

variable (context : Context) {left right : Part}

theorem conclude (first second : Value) (span : Span) (store : Store) :
    Records (conclude context first second span store) := by
  unfold NullFlow.conclude
  split
  · exact .bind (.checkShape _ _ _ _) fun _ => .pure _
  · exact .pure _

theorem fallback (ofRight : right.get.Records) (first : Value) (store : Store) :
    Records (fallback context first right store) :=
  .bind (ofRight.value _) fun _ => .bind .slots fun _ => .conclude context _ _ _ _

/-- A fallback only adds to what is recorded if both of its operands do. -/
theorem coalesceRule (ofLeft : left.get.Records) (ofRight : right.get.Records) (store : Store) :
    Records (coalesceRule context left right store) := by
  rw [coalesceRule_eq]
  refine .bind (ofLeft.value store) fun first => .ite _ (.pure _) ?_
  have records := fallback context ofRight first.1 first.2
  exact .ite _ (.bind (.emit _) fun _ => records) records

end Choices

end Records

end NullFlow
