import NullFlow.Proofs.Code.Induction
/-!
Code without dead statements. A jump leaves the list of statements in which it stands, so that
control never comes to what follows it there. Pruning drops these statements everywhere, also in
the bodies of lambdas.
-/

namespace NullFlow

namespace Stmt

variable {Leaf Expr : Type}

/-- Control never comes behind the statement in its list. -/
def isJump : Stmt Leaf Expr → Bool
  | .breakOut => true
  | .continueLoop => true
  | .returnValue .. => true
  | .throwValue _ => true
  | _ => false

mutual

/-- The statement without what follows a jump in a list of statements. -/
def pruned : Stmt Leaf Expr → Stmt Leaf Expr
  | .simple leaf => .simple leaf
  | .empty => .empty
  | .block stmts => .block (prunedAll stmts)
  | .ifElse condition thenBranch none => .ifElse condition thenBranch.pruned none
  | .ifElse condition thenBranch (some elseBranch) =>
      .ifElse condition thenBranch.pruned (some elseBranch.pruned)
  | .whileLoop condition body => .whileLoop condition body.pruned
  | .doWhile body condition => .doWhile body.pruned condition
  | .forLoop init condition? updates body =>
      .forLoop (prunedAll init) condition? updates body.pruned
  | .switch scrutinee arms => .switch scrutinee (prunedArms arms)
  | .breakOut => .breakOut
  | .continueLoop => .continueLoop
  | .returnValue value? span => .returnValue value? span
  | .throwValue value? => .throwValue value?

/-- The statements up to the first jump. -/
def prunedAll : List (Stmt Leaf Expr) → List (Stmt Leaf Expr)
  | [] => []
  | stmt :: rest => stmt.pruned :: if stmt.isJump then [] else prunedAll rest

def prunedArms : List (Arm (Stmt Leaf Expr)) → List (Arm (Stmt Leaf Expr))
  | [] => []
  | ⟨pattern?, body⟩ :: rest => ⟨pattern?, prunedAll body⟩ :: prunedArms rest

end

end Stmt

section Maps

variable {Var Child Child' Child'' Code Code' Code'' : Type}

def Argument.map (child : Child → Child') (argument : Argument Child) : Argument Child' :=
  ⟨child argument.value, argument.name?⟩

mutual

def Initializer.map (child : Child → Child') : Initializer Child → Initializer Child'
  | .value member value => .value member (child value)
  | .nested member entries => .nested member (mapInitializers child entries)

def mapInitializers (child : Child → Child') :
    List (Initializer Child) → List (Initializer Child')
  | [] => []
  | entry :: rest => entry.map child :: mapInitializers child rest

end

def LambdaBody.map (child : Child → Child') (code : Code → Code') :
    LambdaBody Child Code → LambdaBody Child' Code'
  | .expr value => .expr (child value)
  | .block body => .block (code body)

/-- Replaces what fills the shape. -/
def ExprKind.map (child : Child → Child') (code : Code → Code') :
    ExprKind Var Child Code → ExprKind Var Child' Code'
  | .read source => .read source
  | .this => .this
  | .literal value => .literal value
  | .defaultValue => .defaultValue
  | .cast operand => .cast (child operand)
  | .member receiver? selected => .member (receiver?.map child) selected
  | .index receiver position => .index (child receiver) (child position)
  | .call receiver? method arguments =>
      .call (receiver?.map child) method (arguments.map (Argument.map child))
  | .create constructor? arguments initializers =>
      .create constructor? (arguments.map (Argument.map child)) (mapInitializers child initializers)
  | .array element? items => .array element? (items.map child)
  | .conditional condition whenTrue whenFalse =>
      .conditional (child condition) (child whenTrue) (child whenFalse)
  | .coalesce left right => .coalesce (child left) (child right)
  | .binary operator left right => .binary operator (child left) (child right)
  | .unary operator operand => .unary operator (child operand)
  | .test operand pattern => .test (child operand) pattern
  | .suppress operand => .suppress (child operand)
  | .assign target value => .assign (child target) (child value)
  | .lambda parameters body => .lambda parameters (body.map child code)
  | .bad children => .bad (children.map child)

variable {first : Child → Child'} {second : Child' → Child''}

mutual

/-- Two changes of the values of an initializer are one. -/
theorem Initializer.map_map : ∀ entry : Initializer Child,
    (entry.map first).map second = entry.map fun value => second (first value)
  | .value _ _ => rfl
  | .nested member entries => congrArg (Initializer.nested member) (mapInitializers_map entries)

theorem mapInitializers_map : ∀ entries : List (Initializer Child),
    mapInitializers second (mapInitializers first entries) =
      mapInitializers (fun value => second (first value)) entries
  | [] => rfl
  | entry :: rest => by
      simp only [mapInitializers, Initializer.map_map entry, mapInitializers_map rest]

end

/-- Two changes of the parts of an expression are one. -/
theorem ExprKind.map_map {early : Code → Code'} {late : Code' → Code''}
    (kind : ExprKind Var Child Code) :
    (kind.map first early).map second late =
      kind.map (fun value => second (first value)) fun code => late (early code) := by
  cases kind with
  | lambda parameters body => cases body <;> rfl
  | _ => simp [map, mapInitializers_map, Argument.map, Function.comp_def]

variable {other : Child → Child'}

mutual

/-- A change of an initializer depends on its values alone. -/
theorem Initializer.map_congr : ∀ entry : Initializer Child,
    (∀ value ∈ entry.values, first value = other value) → entry.map first = entry.map other
  | .value member value, same => congrArg (Initializer.value member) (same value List.mem_cons_self)
  | .nested member entries, same =>
      congrArg (Initializer.nested member) (mapInitializers_congr entries same)

theorem mapInitializers_congr : ∀ entries : List (Initializer Child),
    (∀ value ∈ initializerValues entries, first value = other value) →
      mapInitializers first entries = mapInitializers other entries
  | [], _ => rfl
  | entry :: rest, same => by
      obtain ⟨ofEntry, ofRest⟩ := List.forall_mem_append.mp same
      simp only [mapInitializers, Initializer.map_congr entry ofEntry,
        mapInitializers_congr rest ofRest]

end

theorem Argument.map_congr {arguments : List (Argument Child)}
    (same : ∀ child ∈ arguments.map Argument.value, first child = other child) :
    arguments.map (Argument.map first) = arguments.map (Argument.map other) := by
  refine List.map_congr_left fun argument member => ?_
  rw [Argument.map, same _ (List.mem_map_of_mem member), Argument.map]

/-- A change of an expression depends on its parts alone. -/
theorem ExprKind.map_congr {code : Code → Code'} {kind : ExprKind Var Child Code}
    (same : ∀ child ∈ kind.children, first child = other child)
    (sameValue : ∀ parameters value, kind = .lambda parameters (.expr value) →
      first value = other value) :
    kind.map first code = kind.map other code := by
  cases kind with
  | lambda parameters body =>
      cases body with
      | expr value => rw [map, LambdaBody.map, sameValue _ _ rfl, map, LambdaBody.map]
      | block body => rfl
  | member receiver? selected =>
      cases receiver? with
      | none => rfl
      | some receiver => simp_all [map, children]
  | call receiver? method arguments =>
      have arguments := Argument.map_congr fun child member =>
        same child (List.mem_append_right _ member)
      rw [map, map, arguments]
      cases receiver? with
      | none => rfl
      | some receiver => rw [Option.map_some, same receiver (by simp [children]), Option.map_some]
  | create constructor? arguments initializers =>
      rw [map, map, Argument.map_congr fun child member => same child (List.mem_append_left _ member),
        mapInitializers_congr _ fun child member => same child (List.mem_append_right _ member)]
  | array element? items =>
      have items : items.map first = items.map other := List.map_congr_left same
      rw [map, map, items]
  | bad items =>
      have items : items.map first = items.map other := List.map_congr_left same
      rw [map, map, items]
  | _ => simp_all [map, children]

end Maps

section Folds

variable {Result : Type} (rule : Expr.Results Result → Result)

mutual

/-- The values of an initializer are folded when they are asked for. -/
theorem delayInitializer_eq_map : ∀ entry : Initializer Expr,
    delayInitializer rule entry = entry.map fun value => Thunk.mk fun _ => value.fold rule
  | .value _ _ => rfl
  | .nested member entries =>
      congrArg (Initializer.nested member) (delayInitializers_eq_map entries)

theorem delayInitializers_eq_map : ∀ entries : List (Initializer Expr),
    delayInitializers rule entries =
      mapInitializers (fun value => Thunk.mk fun _ => value.fold rule) entries
  | [] => rfl
  | entry :: rest => by
      simp only [delayInitializers, mapInitializers, delayInitializer_eq_map entry,
        delayInitializers_eq_map rest]

end

/-- A fold replaces the parts of an expression by their results. -/
theorem foldKind_eq_map (kind : ExprKind Variable Expr Code) :
    foldKind rule kind = kind.map (fun child => Thunk.mk fun _ => child.fold rule)
      fun code => Thunk.mk fun _ => foldStmt rule code := by
  cases kind with
  | lambda parameters body => cases body <;> rfl
  | member receiver? selected => cases receiver? <;> rfl
  | call receiver? method arguments =>
      rw [foldKind, ExprKind.map, delayArguments_eq_map]
      cases receiver? <;> rfl
  | create constructor? arguments initializers =>
      simp [foldKind, ExprKind.map, delayArguments_eq_map, delayInitializers_eq_map, Argument.map]
  | array element? items => rw [foldKind, ExprKind.map, delayAll_eq_map]
  | bad items => rw [foldKind, ExprKind.map, delayAll_eq_map]
  | _ => rfl

mutual

/-- A fold sees the same in code and in the code with other expressions, if it sees the same in the
expressions. -/
theorem foldStmt_foldStmt {inner : Expr.Results Expr → Expr} : ∀ code : Code,
    (∀ leaf ∈ code.leaves, ∀ expr ∈ leaf.exprs, (expr.fold inner).fold rule = expr.fold rule) →
    (∀ expr ∈ code.exprs, (expr.fold inner).fold rule = expr.fold rule) →
    foldStmt rule (foldStmt inner code) = foldStmt rule code
  | .simple leaf, leaves, _ => by
      have same := leaves leaf (by simp [Stmt.leaves])
      cases leaf with
      | declare target value? =>
          cases value? with
          | none => rfl
          | some value =>
              simp only [foldStmt, foldSimple, foldOption]
              rw [same value (by simp [Simple.exprs])]
      | evaluate expr =>
          simp only [foldStmt, foldSimple]
          rw [same expr (by simp [Simple.exprs])]
  | .empty, _, _ => rfl
  | .block stmts, leaves, exprs => by
      simp only [foldStmt, foldStmts_foldStmts stmts leaves exprs]
  | .ifElse condition thenBranch none, leaves, exprs => by
      obtain ⟨ofCondition, exprs⟩ := List.forall_mem_cons.mp exprs
      simp only [foldStmt, ofCondition, foldStmt_foldStmt thenBranch leaves exprs]
  | .ifElse condition thenBranch (some elseBranch), leaves, exprs => by
      obtain ⟨ofCondition, exprs⟩ := List.forall_mem_cons.mp exprs
      obtain ⟨thenLeaves, elseLeaves⟩ := List.forall_mem_append.mp leaves
      obtain ⟨thenExprs, elseExprs⟩ := List.forall_mem_append.mp exprs
      simp only [foldStmt, ofCondition, foldStmt_foldStmt thenBranch thenLeaves thenExprs,
        foldStmt_foldStmt elseBranch elseLeaves elseExprs]
  | .whileLoop condition body, leaves, exprs => by
      obtain ⟨ofCondition, exprs⟩ := List.forall_mem_cons.mp exprs
      simp only [foldStmt, ofCondition, foldStmt_foldStmt body leaves exprs]
  | .doWhile body condition, leaves, exprs => by
      obtain ⟨ofCondition, exprs⟩ := List.forall_mem_cons.mp exprs
      simp only [foldStmt, ofCondition, foldStmt_foldStmt body leaves exprs]
  | .forLoop init condition? updates body, leaves, exprs => by
      obtain ⟨initLeaves, bodyLeaves⟩ := List.forall_mem_append.mp leaves
      obtain ⟨initExprs, exprs⟩ := List.forall_mem_append.mp exprs
      obtain ⟨ofCondition, exprs⟩ := List.forall_mem_append.mp exprs
      obtain ⟨ofUpdates, bodyExprs⟩ := List.forall_mem_append.mp exprs
      have updates : (updates.map (Expr.fold inner)).map (Expr.fold rule) =
          updates.map (Expr.fold rule) := by
        rw [List.map_map]
        exact List.map_congr_left ofUpdates
      have condition : (condition?.map (Expr.fold inner)).map (Expr.fold rule) =
          condition?.map (Expr.fold rule) := by
        cases condition? with
        | none => rfl
        | some condition => exact congrArg some (ofCondition condition (by simp))
      simp only [foldStmt, foldStmts_foldStmts init initLeaves initExprs,
        foldStmt_foldStmt body bodyLeaves bodyExprs, foldOption_eq_map, foldAll_eq_map, updates,
        condition]
  | .switch scrutinee arms, leaves, exprs => by
      obtain ⟨ofScrutinee, exprs⟩ := List.forall_mem_cons.mp exprs
      simp only [foldStmt, ofScrutinee, foldArms_foldArms arms leaves exprs]
  | .breakOut, _, _ => rfl
  | .continueLoop, _, _ => rfl
  | .returnValue none _, _, _ => rfl
  | .returnValue (some value) span, _, exprs =>
      congrArg (fun value => Stmt.returnValue (some value) span) (exprs value (by simp [Stmt.exprs]))
  | .throwValue none, _, _ => rfl
  | .throwValue (some value), _, exprs =>
      congrArg (fun value => Stmt.throwValue (some value)) (exprs value (by simp [Stmt.exprs]))
termination_by structural code => code

/-- A fold after a fold is one fold, in every statement, if it is in every expression. -/
theorem foldStmts_foldStmts {inner : Expr.Results Expr → Expr} : ∀ stmts : List Code,
    (∀ leaf ∈ Stmt.leavesAll stmts, ∀ expr ∈ leaf.exprs,
      (expr.fold inner).fold rule = expr.fold rule) →
    (∀ expr ∈ Stmt.exprsAll stmts, (expr.fold inner).fold rule = expr.fold rule) →
    foldStmts rule (foldStmts inner stmts) = foldStmts rule stmts
  | [], _, _ => rfl
  | stmt :: rest, leaves, exprs => by
      obtain ⟨stmtLeaves, restLeaves⟩ := List.forall_mem_append.mp leaves
      obtain ⟨stmtExprs, restExprs⟩ := List.forall_mem_append.mp exprs
      simp only [foldStmts, foldStmt_foldStmt stmt stmtLeaves stmtExprs,
        foldStmts_foldStmts rest restLeaves restExprs]
termination_by structural stmts => stmts

theorem foldArms_foldArms {inner : Expr.Results Expr → Expr} : ∀ arms : List (Arm Code),
    (∀ leaf ∈ Stmt.leavesArms arms, ∀ expr ∈ leaf.exprs,
      (expr.fold inner).fold rule = expr.fold rule) →
    (∀ expr ∈ Stmt.exprsArms arms, (expr.fold inner).fold rule = expr.fold rule) →
    foldArms rule (foldArms inner arms) = foldArms rule arms
  | [], _, _ => rfl
  | ⟨_, body⟩ :: rest, leaves, exprs => by
      obtain ⟨bodyLeaves, restLeaves⟩ := List.forall_mem_append.mp leaves
      obtain ⟨bodyExprs, restExprs⟩ := List.forall_mem_append.mp exprs
      simp only [foldArms, foldStmts_foldStmts body bodyLeaves bodyExprs,
        foldArms_foldArms rest restLeaves restExprs]
termination_by structural arms => arms

end

/-- Folding the expressions of a statement does not change whether control goes on after it. -/
theorem isJump_foldStmt (code : Code) : (foldStmt rule code).isJump = code.isJump := by
  cases code with
  | ifElse condition thenBranch elseBranch? => cases elseBranch? <;> rfl
  | _ => rfl

mutual

/-- It makes no difference whether code is pruned before or after a fold. -/
theorem pruned_foldStmt : ∀ code : Code, (foldStmt rule code).pruned = foldStmt rule code.pruned
  | .simple _ => rfl
  | .empty => rfl
  | .block stmts => congrArg Stmt.block (prunedAll_foldStmts stmts)
  | .ifElse condition thenBranch none => by
      simp only [foldStmt, Stmt.pruned, pruned_foldStmt thenBranch]
  | .ifElse condition thenBranch (some elseBranch) => by
      simp only [foldStmt, Stmt.pruned, pruned_foldStmt thenBranch, pruned_foldStmt elseBranch]
  | .whileLoop condition body => by simp only [foldStmt, Stmt.pruned, pruned_foldStmt body]
  | .doWhile body condition => by simp only [foldStmt, Stmt.pruned, pruned_foldStmt body]
  | .forLoop init condition? updates body => by
      simp only [foldStmt, Stmt.pruned, prunedAll_foldStmts init, pruned_foldStmt body]
  | .switch scrutinee arms => congrArg (Stmt.switch _) (prunedArms_foldArms arms)
  | .breakOut => rfl
  | .continueLoop => rfl
  | .returnValue _ _ => rfl
  | .throwValue _ => rfl
termination_by structural code => code

/-- Dead statements may be dropped before or after the expressions are folded. -/
theorem prunedAll_foldStmts : ∀ stmts : List Code,
    Stmt.prunedAll (foldStmts rule stmts) = foldStmts rule (Stmt.prunedAll stmts)
  | [] => rfl
  | stmt :: rest => by
      rw [foldStmts, Stmt.prunedAll, Stmt.prunedAll, isJump_foldStmt, pruned_foldStmt stmt,
        prunedAll_foldStmts rest, foldStmts]
      split <;> rfl
termination_by structural stmts => stmts

theorem prunedArms_foldArms : ∀ arms : List (Arm Code),
    Stmt.prunedArms (foldArms rule arms) = foldArms rule (Stmt.prunedArms arms)
  | [] => rfl
  | ⟨_, body⟩ :: rest => by
      rw [foldArms, Stmt.prunedArms, prunedAll_foldStmts body, prunedArms_foldArms rest,
        Stmt.prunedArms, foldArms]
termination_by structural arms => arms

end

end Folds

/-- An expression in which the bodies of lambdas are pruned, from its pruned parts. -/
def Expr.prunedOfNode (node : Expr.Results Expr) : Expr :=
  .node ⟨node.kind.map Thunk.get fun code => code.get.pruned, node.ty?, node.span⟩

/-- The expression without the dead statements in the bodies of lambdas. -/
def Expr.pruned (expr : Expr) : Expr := expr.fold prunedOfNode

/-- The code without dead statements. -/
def Code.pruned (code : Code) : Code := (foldStmt Expr.prunedOfNode code).pruned

/-- The method without dead statements. -/
def Method.pruned (method : Method) : Method := { method with code := Code.pruned method.code }

/-- An expression is pruned by pruning the code in its lambdas. -/
theorem Expr.pruned_node (node : Node Variable Expr Code) :
    (Expr.node node).pruned =
      .node ⟨node.kind.map Expr.pruned Code.pruned, node.ty?, node.span⟩ := by
  rw [pruned, fold_node, prunedOfNode, foldKind_eq_map, ExprKind.map_map]
  rfl

end NullFlow
