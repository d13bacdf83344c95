import NullFlow.Proofs.Analysis.Parts
import NullFlow.Proofs.Analysis.Regions.Calls
import NullFlow.Proofs.Analysis.Regions.Passes
import NullFlow.Proofs.Code.Contents
import NullFlow.Proofs.Code.Induction
import NullFlow.Proofs.FlowGraph.Contents
/-!
The meanings of expressions keep to a region if all that the expressions name is in the region. The
bodies of lambdas may assign whatever they like, because their stores are their own.
-/

namespace NullFlow

namespace Region

variable {region : Region} {context : Context}

/-- Members that the expression denotes are in the region of what may be lost wherever an assignment
to the expression finds no slot. -/
def Spares (region : Region) (context : Context) (target : Expr) : Prop :=
  ∀ member, target.memberOf? = some member → ∀ ⦃session : Session⦄ ⦃store : Store⦄, store.Live →
    region.Valid session.slots →
    ((target.meaning context).target store session).1.1.slot? = none → region.Loses member.name

/-- The expression keeps to the region, whatever it is evaluated for, and also if something is
assigned to it. -/
structure CoversExpr (region : Region) (context : Context) (expr : Expr) : Prop where
  covers : region.Covers context (expr.part context).get
  target : region.Spares context expr →
    region.Admits context (expr.part context).get.target region.TargetFits

/-- What a node names, declares and does itself is in the region. -/
structure CoversNode (region : Region) (context : Context) (node : Node Variable Expr Code) :
    Prop where
  reads : ∀ source, node.kind = .read source → region.Reads source.id
  declares : ∀ target ∈ node.kind.declared, region.Reads target.id
  names : ∀ member ∈ node.kind.members, region.Names member.name
  writes : ∀ target value, node.kind = .assign target value →
    region.Writes ∧ region.Spares context target

section Graphs

/-- A simple statement is covered if the variables that it declares may be named and its expressions
are covered. -/
theorem simple_covered {leaf : Simple Expr} (declares : ∀ target ∈ leaf.declared, region.Reads target.id)
    (each : ∀ expr ∈ leaf.exprs, region.CoversExpr context expr) :
    region.CoversSimple context (foldSimple (Meaning.ofNode context) leaf) := by
  cases leaf with
  | evaluate expr => exact (each expr List.mem_cons_self).covers
  | declare target value? =>
      refine ⟨declares target List.mem_cons_self, ?_⟩
      intro meaning declared
      cases value? with
      | none => cases declared
      | some expr =>
          obtain rfl : _ = meaning := Option.some.inj declared
          exact (each expr List.mem_cons_self).covers

/-- The graph of code is covered if every declared variable may be named and every expression is
covered. -/
theorem graph_covered_of {code : Code}
    (declares : ∀ target ∈ code.leaves.flatMap Simple.declared, region.Reads target.id)
    (each : ∀ expr ∈ code.allExprs, region.CoversExpr context expr) :
    region.CoversGraph context (code.graph context) := by
  constructor
  apply FlowGraph.ofStmt_over
  · intro leaf member
    rw [leaves_foldStmt] at member
    obtain ⟨simple, inCode, rfl⟩ := List.mem_map.mp member
    apply simple_covered
    · intro target inSimple
      exact declares target (List.mem_flatMap.mpr ⟨simple, inCode, inSimple⟩)
    · intro expr inSimple
      exact each expr (List.mem_append_left _ (List.mem_flatMap.mpr ⟨simple, inCode, inSimple⟩))
  · intro meaning member
    rw [exprs_foldStmt] at member
    obtain ⟨expr, inCode, rfl⟩ := List.mem_map.mp member
    exact (each expr (List.mem_append_right _ inCode)).covers

/-- The graph of a lambda that is one expression is covered if the expression is. -/
theorem graph_covered_ofValue {value : Expr}
    (ofValue : region.Covers context (value.meaning context)) (span : Span) :
    region.CoversGraph context (FlowGraph.ofValue (value.meaning context) span) := by
  constructor
  intro block member
  obtain rfl := Array.mem_singleton.mp member
  refine ⟨fun step inside => absurd inside List.not_mem_nil, ?_⟩
  intro meaning inside
  obtain rfl := List.mem_singleton.mp inside
  exact ofValue

/-- A lambda touches tables alone: its stores end with its own graph. -/
theorem lambdaMeaning_covered {span : Span} {ty? : Option Ty} {graph : Thunk MeaningGraph}
    (covers : region.onTables.CoversGraph context graph.get) :
    region.Covers context (lambdaMeaning context span ty? graph) := by
  have value : region.Admits context (fun store => do
      let _ ← graph.get.analyzeLambda context ty?
      return (Value.loose .notNull ty?, store)) region.ValueFits := by
    intro session store holds
    apply (analyzeLambda_runs covers ty?).bind
    intro returned? after continues _
    exact .pure (loose_fits _ _ (region.holds_grow holds continues.slots))
  have plain : region.Covers context (Meaning.ofValue span ty? _) := covers_ofValue value
  refine ⟨plain.value, plain.branches, ?_⟩
  intro analyze isLambda delegate? session
  obtain rfl : _ = analyze := Option.some.inj isLambda
  exact analyzeLambda_runs covers delegate?

end Graphs

section Expressions

variable {node : Node Variable Expr Code}

/-- An expression that is no place is written by evaluating it. -/
theorem covers_plain {expr : Expr} (covers : region.Covers context (expr.part context).get)
    {ty? : Option Ty} (target : (expr.part context).get.target =
      Meaning.plainTarget ty? (expr.part context).get.value) : region.CoversExpr context expr where
  covers := covers
  target _ := by
    rw [target]
    exact covers.value.plainTarget

/-- A node keeps to the region if its parts do, and if all that it names itself is in the region. -/
theorem node_covered (fits : region.CoversNode context node)
    (children : ∀ child ∈ node.kind.children, region.CoversExpr context child)
    (bodies : ∀ inner ∈ node.kind.bodyExprs, region.onTables.CoversExpr context inner) :
    region.CoversExpr context (.node node) := by
  obtain ⟨kind, ty?, span⟩ := node
  have parts : ∀ child ∈ kind.children, region.Covers context (child.part context).get :=
    fun child member => (children child member).covers
  cases kind with
  | read source =>
      have reads := fits.reads source rfl
      exact ⟨(covers_ofValue (readRule_admits reads)).withTarget _,
        fun _ => variableTarget_admits reads⟩
  | this => exact covers_plain (covers_ofValue thisRule_admits) rfl
  | literal value =>
      have rule : region.Admits context (fun store => return (literalValue ty? value, store))
          region.ValueFits := by
        cases value <;> exact loose_admits _ _
      exact covers_plain
        (((covers_ofValue rule).withBranches (literalBranches_admits value)).marked _ _) rfl
  | defaultValue => exact covers_plain (covers_ofValue (loose_admits _ _)) rfl
  | cast operand =>
      have ofOperand := parts operand List.mem_cons_self
      exact covers_plain ((covers_ofValue (castRule_admits ofOperand)).marked _ _) rfl
  | member receiver? member =>
      cases receiver? with
      | none =>
          have target : region.Admits context (fun store =>
              return ((⟨none, some member.ty, false, false⟩ : Target), store)) region.TargetFits :=
            fun _ _ holds => .pure (knows_none holds)
          exact ⟨(covers_ofValue (loose_admits _ _)).withTarget _, fun _ => target⟩
      | some receiver =>
          have ofReceiver := parts receiver List.mem_cons_self
          have named := fits.names member List.mem_cons_self
          exact ⟨(covers_ofValue (memberRule_admits ofReceiver named)).withTarget _,
            fun spares => memberTarget_admits ofReceiver (meaning_decides context receiver).unreached named
              (spares member rfl)⟩
  | index receiver position =>
      have ofReceiver := parts receiver List.mem_cons_self
      have ofPosition := parts position (by simp [ExprKind.children])
      exact ⟨(covers_ofValue (indexRule_admits ofReceiver ofPosition)).withTarget _,
        fun _ => indexTarget_admits ofReceiver ofPosition⟩
  | call receiver? method arguments =>
      have ofArguments := delayArguments_each (region.Covers context) fun expr member =>
        parts expr (List.mem_append_right _ member)
      refine covers_plain (covers_ofValue (callRule_admits ?_ ofArguments)) rfl
      intro receiver isReceiver
      cases receiver? with
      | none => cases isReceiver
      | some expr =>
          obtain rfl : _ = receiver := Option.some.inj isReceiver
          exact parts expr (by simp [ExprKind.children])
  | create constructor? arguments initializers =>
      have ofArguments := delayArguments_each (region.Covers context) fun expr member =>
        parts expr (List.mem_append_left _ member)
      have ofInitializers := delayInitializers_each (region.Covers context) fun expr member =>
        parts expr (List.mem_append_right _ member)
      have named : ∀ member ∈ initializerMembers
          (delayInitializers (Meaning.ofNode context) initializers), region.Names member.name := by
        rw [members_delayInitializers]
        exact fits.names
      exact covers_plain
        (covers_ofValue (createRule_admits ofArguments named ofInitializers)) rfl
  | array element? items =>
      exact covers_plain
        (covers_ofValue (arrayRule_admits element? (delayAll_each _ parts))) rfl
  | conditional condition whenTrue whenFalse =>
      have ofCondition := parts condition (by simp [ExprKind.children])
      have ofTrue := parts whenTrue (by simp [ExprKind.children])
      have ofFalse := parts whenFalse (by simp [ExprKind.children])
      exact covers_plain
        (covers_ofValue (conditionalRule_admits ofCondition ofTrue ofFalse)) rfl
  | coalesce left right =>
      have ofLeft := parts left (by simp [ExprKind.children])
      have ofRight := parts right (by simp [ExprKind.children])
      exact covers_plain (covers_ofValue (coalesceRule_admits ofLeft ofRight)) rfl
  | binary operator left right =>
      have ofLeft := parts left (by simp [ExprKind.children])
      have ofRight := parts right (by simp [ExprKind.children])
      cases operator with
      | equal => exact covers_plain (covers_ofBranches (equalityRule_admits false ofLeft ofRight)) rfl
      | notEqual =>
          exact covers_plain (covers_ofBranches (equalityRule_admits true ofLeft ofRight)) rfl
      | and => exact covers_plain (covers_ofBranches (andRule_admits ofLeft ofRight)) rfl
      | or => exact covers_plain (covers_ofBranches (orRule_admits ofLeft ofRight)) rfl
      | other =>
          exact covers_plain (covers_ofValue (operationRule_admits (delayAll_each _ parts))) rfl
  | unary operator operand =>
      have ofOperand := parts operand List.mem_cons_self
      cases operator with
      | not => exact covers_plain (covers_ofBranches (notRule_admits ofOperand)) rfl
      | other =>
          exact covers_plain (covers_ofValue (operationRule_admits (delayAll_each _ parts))) rfl
  | test operand pattern =>
      have ofOperand := parts operand List.mem_cons_self
      exact covers_plain (covers_ofBranches (testRule_admits pattern ofOperand)) rfl
  | suppress operand =>
      have ofOperand := parts operand List.mem_cons_self
      exact covers_plain (covers_ofValue (suppressRule_admits ofOperand)) rfl
  | assign target value =>
      obtain ⟨writes, spares⟩ := fits.writes target value rfl
      have ofTarget := (children target (by simp [ExprKind.children])).target spares
      have ofValue := parts value (by simp [ExprKind.children])
      exact covers_plain (covers_ofValue (assignRule_admits writes ofTarget ofValue)) rfl
  | lambda parameters body =>
      cases body with
      | expr value =>
          have ofValue := (bodies value List.mem_cons_self).covers
          exact covers_plain (lambdaMeaning_covered (graph_covered_ofValue ofValue _)) rfl
      | block code =>
          exact covers_plain (lambdaMeaning_covered (graph_covered_of fits.declares bodies)) rfl
  | bad exprs =>
      exact covers_plain (covers_ofValue (badRule_admits (delayAll_each _ parts))) rfl

end Expressions

section Trees

/-- What an expression names anywhere is in the region. -/
structure Includes (region : Region) (expr : Expr) : Prop where
  reads : ∀ node, expr.Contains (.node node) → ∀ source, node.kind = .read source →
    region.Reads source.id
  declares : ∀ node, expr.Contains (.node node) → ∀ target ∈ node.kind.declared,
    region.Reads target.id
  names : ∀ node, expr.Contains (.node node) → ∀ member ∈ node.kind.members,
    region.Names member.name

/-- What a region includes of an expression it includes of every part. -/
theorem Includes.inner {node : Node Variable Expr Code} (includes : region.Includes (.node node))
    {inner : Expr} (reach : ∀ other, inner.Contains other → (Expr.node node).Contains other) :
    region.Includes inner where
  reads other member := includes.reads other (reach _ member)
  declares other member := includes.declares other (reach _ member)
  names other member := includes.names other (reach _ member)

/-- With the stores left out of account, nothing but the names counts. -/
theorem covered_onTables (context : Context) (expr : Expr) (includes : region.Includes expr) :
    region.onTables.CoversExpr context expr := by
  induction expr using Expr.fromParts with
  | step node children bodies =>
      refine node_covered ⟨?_, ?_, ?_, ?_⟩ ?_ ?_
      · exact includes.reads node (.itself _)
      · exact includes.declares node (.itself _)
      · exact includes.names node (.itself _)
      · exact fun _ _ _ => ⟨trivial, fun _ _ _ _ _ _ _ => trivial⟩
      · intro child member
        exact children child member (includes.inner fun _ => .part member)
      · intro inner member
        exact bodies inner member (includes.inner fun _ => .body member)

/-- An expression keeps to the region if all that it names is in the region, and if its assignments
outside the bodies of lambdas keep to the region. -/
theorem covered (context : Context) (expr : Expr) (includes : region.Includes expr)
    (writes : ∀ node, expr.Evaluates (.node node) → ∀ target value, node.kind = .assign target value →
      region.Writes ∧ region.Spares context target) : region.CoversExpr context expr := by
  induction expr using Expr.fromParts with
  | step node children _ =>
      refine node_covered ⟨?_, ?_, ?_, ?_⟩ ?_ ?_
      · exact includes.reads node (.itself _)
      · exact includes.declares node (.itself _)
      · exact includes.names node (.itself _)
      · exact writes node (.itself _)
      · intro child member
        exact children child member (includes.inner fun _ => .part member)
          fun other inside => writes other (.part member inside)
      · intro inner member
        exact covered_onTables context inner (includes.inner fun _ => .body member)

end Trees

end Region

end NullFlow
