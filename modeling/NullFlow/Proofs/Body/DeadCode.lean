import Mathlib
import NullFlow.Proofs.Analysis.Twins
import NullFlow.Proofs.Body.Methods
import NullFlow.Proofs.FlowGraph.Pruning
/-!
Dead code is inert. The analysis sees nothing of the statements that stand behind a jump in a list
of statements, in the code of a method and in the bodies of its lambdas.
-/

namespace NullFlow

/-- Whatever stands behind a jump in a list is pruned. -/
theorem Stmt.prunedAll_behind_jump {Leaf Expr : Type} {jump : Stmt Leaf Expr}
    (isJump : jump.isJump = true) (live dead : List (Stmt Leaf Expr)) :
    prunedAll (live ++ jump :: dead) = prunedAll (live ++ [jump]) := by
  induction live with
  | nil => simp [prunedAll, isJump]
  | cons stmt rest ih => rw [List.cons_append, prunedAll, ih, List.cons_append, prunedAll]

section Meanings

variable (context : Context)

/-- The meaning of a lambda lies in the analysis of its body. -/
theorem lambdaMeaning_congr {span : Span} {ty? : Option Ty} {graph other : Thunk MeaningGraph}
    (same : graph.get.analyzeLambda context = other.get.analyzeLambda context) :
    lambdaMeaning context span ty? graph = lambdaMeaning context span ty? other := by
  simp only [lambdaMeaning, same]

/-- Code with pruned expressions has the graph of the code itself, if the expressions mean the
same. -/
theorem graph_pruned_of {code : Code}
    (same : ∀ expr ∈ code.allExprs, expr.pruned.meaning context = expr.meaning context) :
    ∃ paired, FlowGraph.Twins paired (code.pruned.graph context) (code.graph context) := by
  have folds : foldStmt (Meaning.ofNode context) (foldStmt Expr.prunedOfNode code) =
      foldStmt (Meaning.ofNode context) code :=
    foldStmt_foldStmt (Meaning.ofNode context) code
      (fun leaf inCode expr inLeaf => same expr (List.mem_append_left _
        (List.mem_flatMap.mpr ⟨leaf, inCode, inLeaf⟩)))
      fun expr inCode => same expr (List.mem_append_right _ inCode)
  rw [Code.graph, Code.pruned, ← pruned_foldStmt, folds]
  exact FlowGraph.ofStmt_pruned _

/-- Pruning the bodies of lambdas does not change what an expression means. -/
theorem Expr.meaning_pruned (expr : Expr) : expr.pruned.meaning context = expr.meaning context := by
  induction expr using Expr.fromParts with
  | step node ofChildren ofBody =>
      obtain ⟨kind, ty?, span⟩ := node
      rw [Expr.pruned_node, Expr.meaning, Expr.fold_node, Expr.meaning, Expr.fold_node,
        foldKind_eq_map, foldKind_eq_map, ExprKind.map_map]
      have parts : kind.map
          (fun child => Thunk.mk fun _ => child.pruned.fold (Meaning.ofNode context))
          (fun code => Thunk.mk fun _ => foldStmt (Meaning.ofNode context) code.pruned) =
          kind.map (fun child => Thunk.mk fun _ => child.fold (Meaning.ofNode context))
            fun code => Thunk.mk fun _ => foldStmt (Meaning.ofNode context) code.pruned := by
        refine ExprKind.map_congr (fun child member => ?_) ?_
        · exact congrArg (fun meaning => Thunk.mk fun _ => meaning) (ofChildren child member)
        · rintro parameters value rfl
          exact congrArg (fun meaning => Thunk.mk fun _ => meaning)
            (ofBody value List.mem_cons_self)
      rw [parts]
      cases kind with
      | lambda parameters body =>
          cases body with
          | expr value => rfl
          | block code =>
              obtain ⟨paired, twins⟩ := graph_pruned_of context ofBody
              exact lambdaMeaning_congr context (twins.analyzeLambda context)
      | _ => rfl

/-- The graph of pruned code is that of the code but for stray blocks. -/
theorem Code.graph_pruned (code : Code) :
    ∃ paired, FlowGraph.Twins paired (code.pruned.graph context) (code.graph context) :=
  graph_pruned_of context fun expr _ => expr.meaning_pruned context

end Meanings

/-- A method has the same analysis with and without its dead statements. -/
theorem Method.analyze_pruned (method : Method) (classes : ClassTable) (options : Options)
    (token : CancellationToken) :
    method.pruned.analyze classes options token =
      method.analyze classes options token := by
  obtain ⟨paired, graphs⟩ :=
    Code.graph_pruned (method.context classes options token) method.code
  have alike := graphs.analyze (method.context classes options token) Store.entry
    (method.session options)
  change Option.Rel (Solution.Twins paired) (method.pruned.run classes options token).1
    (method.run classes options token).1 ∧
      (method.pruned.run classes options token).2 =
        (method.run classes options token).2 at alike
  obtain ⟨answers, sessions⟩ := alike
  rw [analyze, analyze]
  generalize method.pruned.run classes options token = pruned at answers sessions
  generalize method.run classes options token = run at answers sessions
  obtain ⟨pruned?, after⟩ := pruned
  obtain ⟨solution?, afterToo⟩ := run
  obtain rfl : after = afterToo := sessions
  cases answers with
  | none => rfl
  | some twins => simp only [MethodAnalysis.ofRun?, twins.iterations, twins.converged]

/-- Dead code is inert. Two valid bodies that differ only in what stands behind a jump in a list of
statements have the same analysis, whatever the classes and the options are. -/
theorem analysis_of_live_code (left right : Body) (leftValid : left.validate = .ok ())
    (rightValid : right.validate = .ok ())
    (same : left.method?.map Method.pruned = right.method?.map Method.pruned) :
    ∃ method other, left.method? = some method ∧ right.method? = some other ∧
      ∀ classes options token, method.analyze classes options token =
        other.analyze classes options token := by
  obtain ⟨method, isLeft⟩ := Body.method?_exists leftValid
  obtain ⟨other, isRight⟩ := Body.method?_exists rightValid
  rw [isLeft, isRight] at same
  have pruned : method.pruned = other.pruned := Option.some.inj same
  refine ⟨method, other, isLeft, isRight, fun classes options token => ?_⟩
  rw [← method.analyze_pruned, pruned, other.analyze_pruned]

section Example

/-- A lambda that returns null, and a method that throws. -/
def earlyExits : Body where
  name := "M"
  span? := none
  thisType? := none
  parameters := [0]
  returnType := .void
  locals := #[⟨"x", .named "C" [] .plain, false⟩]
  exprs := #[⟨.literal .null, none, .point "a.cs" 1 1⟩, ⟨.lambda [] (.block 1), none, .none⟩,
    ⟨.read 0, some (.named "C" [] .plain), .point "a.cs" 2 1⟩]
  stmts := #[⟨.returnValue (some 0), .none⟩, ⟨.block [0], .none⟩, ⟨.evaluate 1, .none⟩,
    ⟨.throwValue none, .none⟩, ⟨.block [2, 3], .none⟩]
  root := 4

/-- The same with a loop behind the return, and an assignment of null behind the throw. -/
def deadStatements : Body where
  name := "M"
  span? := none
  thisType? := none
  parameters := [0]
  returnType := .void
  locals := #[⟨"x", .named "C" [] .plain, false⟩]
  exprs := #[⟨.literal .null, none, .point "a.cs" 1 1⟩, ⟨.lambda [] (.block 1), none, .none⟩,
    ⟨.read 0, some (.named "C" [] .plain), .point "a.cs" 2 1⟩,
    ⟨.literal .null, some (.named "C" [] .plain), .point "a.cs" 3 1⟩,
    ⟨.assign 2 3, some (.named "C" [] .plain), .point "a.cs" 3 1⟩]
  stmts := #[⟨.returnValue (some 0), .none⟩, ⟨.block [0, 6], .none⟩, ⟨.evaluate 1, .none⟩,
    ⟨.throwValue none, .none⟩, ⟨.block [2, 3, 5], .none⟩, ⟨.evaluate 4, .none⟩,
    ⟨.whileLoop 2 7, .none⟩, ⟨.continueLoop, .none⟩]
  root := 4

/-- A body with statements behind early exits is analyzed like the one without them. -/
theorem earlyExits_deadStatements :
    earlyExits.validate = .ok () ∧ deadStatements.validate = .ok () ∧
    ∃ method other, earlyExits.method? = some method ∧ deadStatements.method? = some other ∧
      ∀ classes options token, method.analyze classes options token =
        other.analyze classes options token := by
  have leftValid : earlyExits.validate = .ok () := by decide +kernel
  have rightValid : deadStatements.validate = .ok () := by decide +kernel
  have same : earlyExits.method?.map Method.pruned = deadStatements.method?.map Method.pruned := by
    cbv
  exact ⟨leftValid, rightValid, analysis_of_live_code earlyExits deadStatements leftValid rightValid
    same⟩

end Example

end NullFlow
