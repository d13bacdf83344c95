import NullFlow.Proofs.Analysis.Rules.Operations
import NullFlow.Proofs.Analysis.Sweeps
import NullFlow.Proofs.Diagnostic.Order
import NullFlow.Proofs.Store.Keys
/-!
Disciplines. A discipline is a property of actions that sequences keep, and that belongs to the few
actions of which all rules are made: to read slots, to change slots and to report a finding. So it
belongs to the rules, whatever it says.
-/

namespace NullFlow

/-- What the analysis of a method can find. -/
inductive Context.Finds (context : Context) : Diagnostic → Prop where
  | dereference (span : Span) : Finds context (.dereference span context.method)
  | assignment (span : Span) (target : Ty) : Finds context (.assignment span context.method target)
  | returnValue (span : Span) (target : Ty) :
      Finds context (.returnValue span context.method target)
  | argument (span : Span) (parameter callee : String) :
      Finds context (.argument span context.method parameter callee)
  | shapeMismatch (span : Span) (source target : Ty) :
      Finds context (.shapeMismatch span context.method source target)
  | neverNull (span : Span) : Finds context (.neverNull span context.method)

/-- Every finding of the analysis has the severity of its rule. -/
theorem Context.Finds.rated {context : Context} {finding : Diagnostic}
    (finds : context.Finds finding) : finding.Rated := by
  cases finds <;> rfl

/-- The range that a finding shows for a range of the source. It ends on no line before its first. -/
def Span.shown (span : Span) : Span := { span with endLine := max span.endLine span.startLine }

namespace Analysis

variable {Result Other Item : Type}

/-- The action has the result in some session. -/
def Yields (action : Analysis Result) (result : Result) : Prop :=
  ∃ session, (action session).1 = result

theorem Yields.of_pure {result other : Result}
    (yields : Yields (pure result : Analysis Result) other) : other = result := by
  obtain ⟨session, same⟩ := yields
  exact same.symm

/-- A property of actions that sequences keep. -/
structure Sequential (holds : {Result : Type} → Analysis Result → Prop) : Prop where
  pure : ∀ {Result : Type} (result : Result), holds (pure result : Analysis Result)
  bind : ∀ {Result Other : Type} {action : Analysis Result} {next : Result → Analysis Other},
    holds action → (∀ result, holds (next result)) → holds (action >>= next)

namespace Sequential

variable {holds : {Result : Type} → Analysis Result → Prop} (sequential : Sequential @holds)
include sequential

/-- A property of single actions that lasts through sequences lasts through loops with a result. -/
theorem foldlM {body : Result → Item → Analysis Result} {items : List Item}
    (each : ∀ item ∈ items, ∀ result, holds (body result item)) (start : Result) :
    holds (items.foldlM body start) := by
  induction items generalizing start with
  | nil => exact sequential.pure start
  | cons item rest ih =>
      rw [List.foldlM_cons]
      apply sequential.bind (each item List.mem_cons_self start)
      intro result
      exact ih (fun other member => each other (List.mem_cons_of_mem _ member)) result

/-- A property of single actions that lasts through sequences lasts through loops. -/
theorem forM {body : Item → Analysis PUnit} {items : List Item}
    (each : ∀ item ∈ items, holds (body item)) : holds (items.forM body) := by
  induction items with
  | nil => exact sequential.pure _
  | cons item rest ih =>
      apply sequential.bind (each item List.mem_cons_self)
      intro _
      exact ih fun other member => each other (List.mem_cons_of_mem _ member)

end Sequential

end Analysis

/-- A property of the actions of expressions, and one of the actions of blocks. Findings are reported
in certain ranges only. -/
structure Discipline (context : Context) where
  covers : Span → Prop
  InExpr : {Result : Type} → Analysis Result → Prop
  InBlock : {Result : Type} → Analysis Result → Prop
  ofPure : ∀ {Result : Type} (result : Result), InExpr (pure result : Analysis Result)
  ofBind : ∀ {Result Other : Type} {action : Analysis Result} {next : Result → Analysis Other},
    InExpr action → (∀ result, Analysis.Yields action result → InExpr (next result)) →
    InExpr (action >>= next)
  ofSlots : InExpr Analysis.slots
  ofOnSlots : ∀ {Result : Type} {action : StateM SlotTable Result}, SlotTable.KeepsKeys action →
    InExpr (Analysis.onSlots action)
  ofEmit : ∀ {finding : Diagnostic} {span : Span}, context.Finds finding →
    finding.location = span.shown → covers span → InExpr (Analysis.emit finding)
  ofInner : ∀ {Result : Type} {action : Analysis Result}, InExpr action → InBlock action
  ofSequel : ∀ {Result Other : Type} {action : Analysis Result} {next : Result → Analysis Other},
    InBlock action → (∀ result, InBlock (next result)) → InBlock (action >>= next)
  ofFrame : InBlock Analysis.frame
  ofReturns : ∀ change, InBlock (Analysis.modifyReturns change)
  ofMustStop : InBlock (Analysis.mustStop context)

namespace Discipline

variable {context : Context} {discipline : Discipline context} {Result Other Item : Type}

namespace InExpr

theorem pure (result : Result) : discipline.InExpr (Pure.pure result : Analysis Result) :=
  discipline.ofPure result

/-- What follows an action in an expression may rely on a result that the action can have. -/
theorem after {action : Analysis Result} {next : Result → Analysis Other}
    (early : discipline.InExpr action)
    (late : ∀ result, Analysis.Yields action result → discipline.InExpr (next result)) :
    discipline.InExpr (action >>= next) := discipline.ofBind early late

/-- Actions of an expression follow one another. -/
theorem bind {action : Analysis Result} {next : Result → Analysis Other}
    (early : discipline.InExpr action) (late : ∀ result, discipline.InExpr (next result)) :
    discipline.InExpr (action >>= next) := early.after fun result _ => late result

theorem sequential (discipline : Discipline context) : Analysis.Sequential discipline.InExpr :=
  ⟨pure, bind⟩

theorem ite {left right : Analysis Result} (decision : Bool) (whenTrue : discipline.InExpr left)
    (whenFalse : discipline.InExpr right) :
    discipline.InExpr (if decision then left else right) := by
  cases decision with
  | false => exact whenFalse
  | true => exact whenTrue

theorem slots : discipline.InExpr Analysis.slots := discipline.ofSlots

/-- An action on slots belongs to an expression if every slot keeps its key. -/
theorem onSlots {action : StateM SlotTable Result} (keeps : SlotTable.KeepsKeys action) :
    discipline.InExpr (Analysis.onSlots action) := discipline.ofOnSlots keeps

section Checks

variable {span : Span} (inside : discipline.covers span)
include inside

/-- Inside its span an expression may report any finding of the analysis. -/
theorem emit {finding : Diagnostic} (finds : context.Finds finding)
    (lies : finding.location = span.shown) : discipline.InExpr (Analysis.emit finding) :=
  discipline.ofEmit finds lies inside

/-- A dereference reports at the span of its receiver. -/
theorem dereference (receiver : Value) (store : Store) :
    discipline.InExpr (context.dereference receiver span store) :=
  .ite _ (.pure _) (.ite _ (.bind (.emit inside (.dereference span) rfl) fun _ => .pure _)
    (.pure _))

/-- Marks inside types are compared at the span of the value. -/
theorem checkShape (source target : Ty) :
    discipline.InExpr (context.checkShape source target span) :=
  .ite _ (.emit inside (.shapeMismatch span source target) rfl) (.pure _)

/-- A conversion is checked at the span of the value. -/
theorem checkConversion (value : Value) (target : Ty) (site : Site) :
    discipline.InExpr (context.checkConversion value target span site) := by
  unfold Context.checkConversion
  split
  · exact .pure _
  · exact .pure _
  · refine .ite _ (.bind ?_ fun _ => .checkShape inside _ _) (.checkShape inside _ _)
    cases site with
    | assignment => exact .emit inside (.assignment span target) rfl
    | returnValue => exact .emit inside (.returnValue span target) rfl
    | argument parameter callee => exact .emit inside (.argument span parameter callee) rfl

theorem checkTarget (place : Target) (result : Value) :
    discipline.InExpr (Comparison.checkTarget context place result span) := by
  unfold Comparison.checkTarget
  split
  · exact .ite _ (.checkConversion inside _ _ _) (.pure _)
  · exact .pure _

end Checks

/-- The result of an assignment goes to the table and the store, and to nothing else. -/
theorem record (place : Target) (result : Value) (store : Store) :
    discipline.InExpr (Comparison.record place result store) :=
  .ite _ (.bind .slots fun _ => .pure _) (.onSlots (Store.write_keeps _ _ _))

end InExpr

namespace InBlock

/-- What an expression may do its block may do. -/
theorem inner {action : Analysis Result} (inExpr : discipline.InExpr action) :
    discipline.InBlock action := discipline.ofInner inExpr

theorem pure (result : Result) : discipline.InBlock (Pure.pure result : Analysis Result) :=
  .inner (.pure result)

theorem bind {action : Analysis Result} {next : Result → Analysis Other}
    (early : discipline.InBlock action) (late : ∀ result, discipline.InBlock (next result)) :
    discipline.InBlock (action >>= next) := discipline.ofSequel early late

theorem sequential (discipline : Discipline context) : Analysis.Sequential discipline.InBlock :=
  ⟨pure, bind⟩

theorem ite {left right : Analysis Result} (decision : Bool) (whenTrue : discipline.InBlock left)
    (whenFalse : discipline.InBlock right) :
    discipline.InBlock (if decision then left else right) := by
  cases decision with
  | false => exact whenFalse
  | true => exact whenTrue

/-- Only blocks may change the returns of the body around them. -/
theorem modifyReturns (change : List Returned → List Returned) :
    discipline.InBlock (Analysis.modifyReturns change) := discipline.ofReturns change

theorem checkReturn {span : Span} (inside : discipline.covers span) (value : Value) :
    discipline.InBlock (context.checkReturn value span) := by
  apply InBlock.bind discipline.ofFrame
  intro frame
  split
  · exact .inner (.checkConversion inside _ _ _)
  · exact .pure _

/-- A block may record what it returns at any span that the discipline covers. -/
theorem recordReturn {span : Span} (inside : discipline.covers span) (value : Value)
    (store : Store) : discipline.InBlock (Comparison.recordReturn context value store span) :=
  .ite _ (.bind (.checkReturn inside _) fun _ => .modifyReturns _) (.pure _)

end InBlock

end Discipline

end NullFlow
