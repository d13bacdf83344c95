import NullFlow.Analysis.Method
import NullFlow.Proofs.Analysis.Discipline.Rules
import NullFlow.Proofs.Analysis.Parts
import NullFlow.Proofs.Analysis.Passes
import NullFlow.Proofs.Code.Induction
import NullFlow.Proofs.FlowGraph.Contents
/-!
The passes of the solver and the visit after them keep every discipline that the meanings in a graph
keep. A discipline that the analysis of lambdas keeps too belongs to the meanings of all expressions
in the ranges that it covers. Total disciplines belong to every basic action of the analysis, so that
they belong to the analysis of whole graphs, of lambdas among them.
-/

namespace NullFlow

variable {context : Context}

/-- The meanings in a simple statement keep the discipline. -/
def Simple.Obeys (discipline : Discipline context) : Simple Meaning → Prop
  | .declare _ value? => ∀ meaning ∈ value?, meaning.Obeys discipline
  | .evaluate meaning => meaning.Obeys discipline

/-- The meanings in a graph keep the discipline. -/
def FlowGraph.Obeys (discipline : Discipline context) (graph : MeaningGraph) : Prop :=
  graph.Over (Simple.Obeys discipline) (Meaning.Obeys discipline)

namespace Discipline

variable {discipline : Discipline context}

namespace InBlock

section Blocks

/-- A step of a block does what expressions do. -/
theorem step {step : Step (Simple Meaning) Meaning}
    (parts : step.Over (Simple.Obeys discipline) (Meaning.Obeys discipline)) (store : Store) :
    discipline.InExpr (step.run context store) := by
  match step, parts with
  | .simple (.declare target none), _ => exact .pure _
  | .simple (.declare target (some meaning)), parts =>
      have ofMeaning := parts meaning rfl
      apply InExpr.bind (ofMeaning.value store)
      intro evaluated
      refine .ite _ (.pure _) ?_
      have written : discipline.InExpr (do
          let slot ← Analysis.onSlots
            (SlotTable.intern (.localVar target.id) target.ty.declaredState)
          Analysis.onSlots (evaluated.2.write (some slot) evaluated.1)) :=
        .bind (.onSlots (.intern _ _)) fun _ => .onSlots (Store.write_keeps _ _ _)
      exact .ite _ (.bind (.checkConversion ofMeaning.span _ _ _) fun _ => written) written
  | .simple (.evaluate meaning), parts => exact .bind (parts.value store) fun _ => .pure _
  | .update meaning, parts => exact .bind (parts.value store) fun _ => .pure _

/-- The end of a block does what expressions do, and may return. -/
theorem terminator {terminator : Terminator Meaning}
    (parts : ∀ meaning ∈ terminator.exprs, meaning.Obeys discipline) (store : Store) :
    discipline.InBlock (terminator.run context store) := by
  match terminator with
  | .goto target => exact .pure _
  | .branch condition whenTrue whenFalse =>
      exact .bind (.inner ((parts condition List.mem_cons_self).branches store)) fun _ => .pure _
  | .switch scrutinee targets =>
      exact .bind (.inner ((parts scrutinee List.mem_cons_self).value store)) fun _ => .pure _
  | .returnValue none _ => exact .pure _
  | .returnValue (some meaning) span =>
      have ofMeaning := parts meaning List.mem_cons_self
      rw [Comparison.run_returnValue]
      exact .bind (.inner (ofMeaning.value store)) fun _ =>
        .bind (.recordReturn ofMeaning.span _ _) fun _ => .pure _
  | .throwValue none => exact .pure _
  | .throwValue (some meaning) =>
      exact .bind (.inner ((parts meaning List.mem_cons_self).value store)) fun _ => .pure _
  | .exit => exact .pure _

/-- A whole block keeps to the discipline if its parts do. -/
theorem transfer {block : Block (Simple Meaning) Meaning}
    (parts : block.Over (Simple.Obeys discipline) (Meaning.Obeys discipline)) (store : Store) :
    discipline.InBlock (block.transfer context store) := by
  apply InBlock.bind
  · apply (sequential discipline).foldlM
    intro step member store
    exact .inner (InBlock.step (parts.steps step member) store)
  · exact InBlock.terminator parts.terminator

end Blocks

section Solver

variable {graph : MeaningGraph} (obeys : graph.Obeys discipline)
include obeys

/-- A visit of the solver keeps to the discipline. -/
theorem visit (start : Store) (sources : Array (List BlockId)) (sweep : Sweep) (id : BlockId) :
    discipline.InBlock (Sweep.visit context graph start sources sweep id) := by
  unfold Sweep.visit
  split
  · exact .pure _
  · rename_i block found
    exact .bind (.inner .slots) fun _ =>
      .bind (.transfer (obeys block (Array.mem_of_getElem? found)) _) fun _ => .pure _

/-- The passes of the solver keep to the discipline, however many there are. -/
theorem iterate (start : Store) (sources : Array (List BlockId)) (order : List BlockId)
    (later passes : Nat) (before : Sweep) : discipline.InBlock
      (Sweep.iterate context graph start sources order later passes before) := by
  have pass (before : Sweep) :
      discipline.InBlock (Comparison.pass context graph start sources order before) :=
    .bind (.modifyReturns _) fun _ =>
      (sequential discipline).foldlM (fun _ _ _ => .visit obeys _ _ _ _) _
  induction later generalizing passes before with
  | zero =>
      rw [Comparison.iterate_eq]
      exact .bind discipline.ofMustStop fun _ => .ite _ (.pure _) <| .bind (pass before) fun _ =>
        .ite _ (.pure _) (.bind (.inner .slots) fun _ => .pure _)
  | succ later ih =>
      rw [Comparison.iterate_eq]
      exact .bind discipline.ofMustStop fun _ => .ite _ (.pure _) <| .bind (pass before) fun now =>
        .ite _ (.pure _) (ih _ now)

theorem solve (start : Store) : discipline.InBlock (graph.solve context start) :=
  .iterate obeys start _ _ _ _ _

/-- The final visits of the blocks keep to the discipline. -/
theorem report (solution : Solution) :
    discipline.InBlock (Comparison.report context graph solution) := by
  apply (InBlock.modifyReturns _).bind
  intro _
  apply (sequential discipline).forM
  rintro ⟨block, id⟩ member
  have inGraph : block ∈ graph.blocks := by
    have inside := (List.mem_zipIdx' member).2
    exact Array.mem_toList_iff.mp (inside ▸ List.getElem_mem _)
  exact .ite _ (.bind (.transfer (obeys block inGraph) _) fun _ => .pure _) (.pure _)

end Solver

end InBlock

section Meanings

/-- The meaning of the expression keeps the discipline. -/
def OfExpr (discipline : Discipline context) (expr : Expr) : Prop :=
  Meaning.Obeys discipline (expr.part context).get

/-- The graph of code keeps to the discipline if all of its expressions do. -/
theorem graph_of {code : Code} (each : ∀ expr ∈ code.allExprs, discipline.OfExpr expr) :
    (code.graph context).Obeys discipline := by
  apply FlowGraph.ofStmt_over
  · intro leaf member
    rw [leaves_foldStmt] at member
    obtain ⟨simple, inCode, rfl⟩ := List.mem_map.mp member
    have inLeaf := fun expr inSimple => each expr
      (List.mem_append_left _ (List.mem_flatMap.mpr ⟨simple, inCode, inSimple⟩))
    cases simple with
    | evaluate expr => exact inLeaf expr List.mem_cons_self
    | declare target value? =>
        intro meaning declared
        cases value? with
        | none => cases declared
        | some expr =>
            obtain rfl : _ = meaning := Option.some.inj declared
            exact inLeaf expr List.mem_cons_self
  · intro meaning member
    rw [exprs_foldStmt] at member
    obtain ⟨expr, inCode, rfl⟩ := List.mem_map.mp member
    exact each expr (List.mem_append_right _ inCode)

theorem graph_ofValue {value : Expr} (obeys : discipline.OfExpr value) {span : Span} :
    FlowGraph.Obeys discipline (FlowGraph.ofValue (value.meaning context) span) := by
  intro block member
  obtain rfl := Array.mem_singleton.mp member
  refine ⟨fun step inside => absurd inside List.not_mem_nil, ?_⟩
  intro meaning inside
  obtain rfl := List.mem_singleton.mp inside
  exact obeys

variable (ofLambda : ∀ graph : MeaningGraph, graph.Obeys discipline → ∀ delegate? : Option Ty,
  discipline.InExpr (graph.analyzeLambda context delegate?))
include ofLambda

/-- A lambda keeps to the discipline of the span that covers it. -/
theorem lambdaMeaning {span : Span} (covered : discipline.covers span) {ty? : Option Ty}
    {graph : Thunk MeaningGraph} (obeys : graph.get.Obeys discipline) :
    (lambdaMeaning context span ty? graph).Obeys discipline := by
  have rule (store : Store) : discipline.InExpr (do
      let _ ← graph.get.analyzeLambda context ty?
      return (Value.loose .notNull ty?, store)) :=
    .bind (ofLambda graph.get obeys ty?) fun _ => .pure _
  have plain : (Meaning.ofValue span ty? _).Obeys discipline := InExpr.ofValue covered rule
  exact plain.withLambda (ofLambda graph.get obeys)

/-- The meaning of a node keeps the discipline if those of its parts do. -/
theorem node (node : Node Variable Expr Code) (covered : discipline.covers node.span)
    (children : ∀ child ∈ node.kind.children, OfExpr discipline child)
    (bodies : ∀ inner ∈ node.kind.bodyExprs, OfExpr discipline inner) :
    OfExpr discipline (.node node) := by
  obtain ⟨kind, ty?, span⟩ := node
  have ofValue {rule : Store → Analysis (Value × Store)}
      (obeys : ∀ store, discipline.InExpr (rule store)) :
      (Meaning.ofValue span ty? rule).Obeys discipline := InExpr.ofValue covered obeys
  have ofBranches {rule : Store → Analysis Branches}
      (obeys : ∀ store, discipline.InExpr (rule store)) :
      (Meaning.ofBranches span ty? rule).Obeys discipline := InExpr.ofBranches covered obeys
  have constant (value : Value) (store : Store) :
    discipline.InExpr (Pure.pure (value, store) : Analysis (Value × Store)) := .pure _
  cases kind with
  | read source => exact (ofValue (.readRule source)).withTarget (.variableTarget source)
  | this => exact ofValue .thisRule
  | literal value =>
      have branches (store : Store) : discipline.InExpr
        (Pure.pure (literalBranches value store) : Analysis Branches) := .pure _
      exact ((ofValue (constant (literalValue ty? value))).withBranches branches).marked _ _
  | defaultValue => exact ofValue (constant _)
  | cast operand => exact (ofValue (.castRule (children operand List.mem_cons_self))).marked _ _
  | member receiver? member =>
      cases receiver? with
      | none => exact (ofValue (constant _)).withTarget fun _ => .pure _
      | some receiver =>
          have ofReceiver := children receiver List.mem_cons_self
          exact (ofValue (.memberRule ofReceiver member)).withTarget (.memberTarget ofReceiver member)
  | index receiver position =>
      have ofReceiver := children receiver List.mem_cons_self
      have ofPosition := children position (by simp [ExprKind.children])
      exact (ofValue (.indexRule ofReceiver ofPosition)).withTarget
        (.indexTarget ofReceiver ofPosition)
  | call receiver? method arguments =>
      have ofArguments := delayArguments_each (Meaning.Obeys discipline) fun expr member =>
        children expr (List.mem_append_right _ member)
      refine ofValue (.callRule ?_ ofArguments)
      intro receiver isReceiver
      cases receiver? with
      | none => cases isReceiver
      | some expr =>
          obtain rfl : _ = receiver := Option.some.inj isReceiver
          exact children expr (by simp [ExprKind.children])
  | create constructor? arguments initializers =>
      have ofArguments := delayArguments_each (Meaning.Obeys discipline) fun expr member =>
        children expr (List.mem_append_left _ member)
      have ofInitializers := delayInitializers_each (Meaning.Obeys discipline) fun expr member =>
        children expr (List.mem_append_right _ member)
      exact ofValue (.createRule ofArguments ofInitializers)
  | array element? items => exact ofValue (.arrayRule element? (delayAll_each _ children))
  | conditional condition whenTrue whenFalse =>
      have ofCondition := children condition (by simp [ExprKind.children])
      have ofTrue := children whenTrue (by simp [ExprKind.children])
      have ofFalse := children whenFalse (by simp [ExprKind.children])
      exact ofValue (.conditionalRule ofCondition ofTrue ofFalse)
  | coalesce left right =>
      have ofLeft := children left (by simp [ExprKind.children])
      have ofRight := children right (by simp [ExprKind.children])
      exact ofValue (.coalesceRule ofLeft ofRight)
  | binary operator left right =>
      have ofLeft := children left (by simp [ExprKind.children])
      have ofRight := children right (by simp [ExprKind.children])
      cases operator with
      | equal => exact ofBranches (.equalityRule false ofLeft ofRight)
      | notEqual => exact ofBranches (.equalityRule true ofLeft ofRight)
      | and => exact ofBranches (.andRule ofLeft ofRight)
      | or => exact ofBranches (.orRule ofLeft ofRight)
      | other => exact ofValue (.operationRule (delayAll_each _ children))
  | unary operator operand =>
      have ofOperand := children operand List.mem_cons_self
      cases operator with
      | not => exact ofBranches (.notRule ofOperand)
      | other => exact ofValue (.operationRule (delayAll_each _ children))
  | test operand pattern =>
      exact ofBranches (.testRule pattern (children operand List.mem_cons_self))
  | suppress operand => exact ofValue (.suppressRule (children operand List.mem_cons_self))
  | assign target value =>
      have ofTarget := children target (by simp [ExprKind.children])
      have ofResult := children value (by simp [ExprKind.children])
      exact ofValue (.assignRule ofTarget ofResult)
  | lambda parameters body =>
      cases body with
      | expr value => exact lambdaMeaning ofLambda covered (graph_ofValue (bodies value List.mem_cons_self))
      | block code => exact lambdaMeaning ofLambda covered (graph_of bodies)
  | bad exprs => exact ofValue (.badRule (delayAll_each _ children))

end Meanings

end Discipline

/-- A property of actions that every basic action has, if it reports in certain ranges only. -/
structure TotalDiscipline (context : Context) where
  covers : Span → Prop
  Holds : {Result : Type} → Analysis Result → Prop
  ofPure : ∀ {Result : Type} (result : Result), Holds (pure result : Analysis Result)
  ofBind : ∀ {Result Other : Type} {action : Analysis Result} {next : Result → Analysis Other},
    Holds action → (∀ result, Analysis.Yields action result → Holds (next result)) →
    Holds (action >>= next)
  ofSlots : Holds Analysis.slots
  ofOnSlots : ∀ {Result : Type} {action : StateM SlotTable Result}, SlotTable.KeepsKeys action →
    Holds (Analysis.onSlots action)
  ofEmit : ∀ {finding : Diagnostic} {span : Span}, context.Finds finding →
    finding.location = span.shown → covers span → Holds (Analysis.emit finding)
  ofFrame : Holds Analysis.frame
  ofReturns : ∀ change, Holds (Analysis.modifyReturns change)
  ofMustStop : Holds (Analysis.mustStop context)
  ofMute : ∀ muted, Holds (Analysis.mute muted)
  ofPushFrame : ∀ expected?, Holds (Analysis.pushFrame expected?)
  ofPopFrame : Holds Analysis.popFrame
  ofCancel : Holds Analysis.cancel

namespace TotalDiscipline

variable (total : TotalDiscipline context)

def discipline : Discipline context where
  covers := total.covers
  InExpr := total.Holds
  InBlock := total.Holds
  ofPure := total.ofPure
  ofBind := total.ofBind
  ofSlots := total.ofSlots
  ofOnSlots := total.ofOnSlots
  ofEmit := total.ofEmit
  ofInner holds := holds
  ofSequel early late := total.ofBind early fun result _ => late result
  ofFrame := total.ofFrame
  ofReturns := total.ofReturns
  ofMustStop := total.ofMustStop

variable {total}

/-- A graph that keeps to the discipline is analyzed by it. -/
theorem analyze {graph : MeaningGraph} (obeys : graph.Obeys total.discipline) (start : Store) :
    total.discipline.InBlock (graph.analyze context start) := by
  apply Discipline.InBlock.bind (total.ofMute true)
  intro wasMuted
  apply (Discipline.InBlock.solve obeys start).bind
  intro solution?
  apply Discipline.InBlock.bind (total.ofMute wasMuted)
  intro _
  cases solution? with
  | none => exact .pure _
  | some solution => exact (Discipline.InBlock.report obeys solution).bind fun _ => .pure _

/-- The analysis of a lambda leaves the returns around it as they were. -/
theorem analyzeLambda (graph : MeaningGraph) (obeys : graph.Obeys total.discipline)
    (delegate? : Option Ty) :
    total.discipline.InExpr (graph.analyzeLambda context delegate?) := by
  rw [Comparison.analyzeLambda_eq]
  have body : total.discipline.InBlock (Comparison.analyzeBody context graph) := by
    apply (analyze obeys Store.entry).bind
    intro solution?
    cases solution? with
    | none => exact total.ofCancel
    | some solution => exact .pure _
  have returned : total.discipline.InExpr (Comparison.returnedValue context) := by
    apply Discipline.InExpr.bind total.ofPopFrame
    intro frame
    dsimp only
    split <;> exact .pure _
  exact Discipline.InExpr.bind (total.ofPushFrame _) fun _ =>
    Discipline.InExpr.bind body fun _ => returned

/-- An expression keeps the discipline if its parts do and its range is covered. -/
theorem ofNode (node : Node Variable Expr Code) (covered : total.covers node.span)
    (children : ∀ child ∈ node.kind.children, total.discipline.OfExpr child)
    (bodies : ∀ inner ∈ node.kind.bodyExprs, total.discipline.OfExpr inner) :
    total.discipline.OfExpr (.node node) :=
  Discipline.node analyzeLambda node covered children bodies

end TotalDiscipline

end NullFlow
