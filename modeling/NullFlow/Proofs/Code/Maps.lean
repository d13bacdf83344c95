import NullFlow.Body.Tree
import NullFlow.Proofs.Code.Contents
/-!
Maps of code. The simple statements and the expressions of a statement tree can be replaced without a
change to the shape of the tree. A fold is such a map. It does not matter whether the parts are
replaced in a tree or before the tree is made of them.
-/

namespace NullFlow

namespace Stmt

variable {Leaf Expr Leaf' Expr' : Type} (onLeaf : Leaf → Leaf') (onExpr : Expr → Expr')

mutual

/-- Replaces the simple statements and the expressions of a statement. -/
def map : Stmt Leaf Expr → Stmt Leaf' Expr'
  | .simple leaf => .simple (onLeaf leaf)
  | .empty => .empty
  | .block stmts => .block (mapAll stmts)
  | .ifElse condition thenBranch none => .ifElse (onExpr condition) (map thenBranch) none
  | .ifElse condition thenBranch (some elseBranch) =>
      .ifElse (onExpr condition) (map thenBranch) (some (map elseBranch))
  | .whileLoop condition body => .whileLoop (onExpr condition) (map body)
  | .doWhile body condition => .doWhile (map body) (onExpr condition)
  | .forLoop init condition? updates body =>
      .forLoop (mapAll init) (condition?.map onExpr) (updates.map onExpr) (map body)
  | .switch scrutinee arms => .switch (onExpr scrutinee) (mapArms arms)
  | .breakOut => .breakOut
  | .continueLoop => .continueLoop
  | .returnValue value? span => .returnValue (value?.map onExpr) span
  | .throwValue value? => .throwValue (value?.map onExpr)
termination_by structural stmt => stmt

def mapAll : List (Stmt Leaf Expr) → List (Stmt Leaf' Expr')
  | [] => []
  | stmt :: rest => map stmt :: mapAll rest
termination_by structural stmts => stmts

def mapArms : List (Arm (Stmt Leaf Expr)) → List (Arm (Stmt Leaf' Expr'))
  | [] => []
  | ⟨pattern?, body⟩ :: rest => ⟨pattern?, mapAll body⟩ :: mapArms rest
termination_by structural arms => arms

end

/-- The statements of a block are changed one by one. -/
theorem mapAll_eq_map (stmts : List (Stmt Leaf Expr)) :
    mapAll onLeaf onExpr stmts = stmts.map (map onLeaf onExpr) := by
  induction stmts with
  | nil => rfl
  | cons stmt rest ih => rw [mapAll, ih, List.map_cons]

theorem mapArms_eq_map (arms : List (Arm (Stmt Leaf Expr))) :
    mapArms onLeaf onExpr arms = arms.map fun arm =>
      ⟨arm.pattern?, arm.body.map (map onLeaf onExpr)⟩ := by
  induction arms with
  | nil => rfl
  | cons arm rest ih => rw [mapArms, ih, mapAll_eq_map, List.map_cons]

end Stmt

section Folds

variable {Result : Type} (rule : Expr.Results Result → Result)

mutual

/-- To fold a statement tree is to replace its expressions by their results. -/
theorem foldStmt_eq_map : ∀ code : Code,
    foldStmt rule code = code.map (foldSimple rule) (Expr.fold rule)
  | .simple _ => rfl
  | .empty => rfl
  | .block stmts => by rw [foldStmt, Stmt.map, foldStmts_eq_map stmts]
  | .ifElse _ thenBranch none => by rw [foldStmt, Stmt.map, foldStmt_eq_map thenBranch]
  | .ifElse _ thenBranch (some elseBranch) => by
      rw [foldStmt, Stmt.map, foldStmt_eq_map thenBranch, foldStmt_eq_map elseBranch]
  | .whileLoop _ body => by rw [foldStmt, Stmt.map, foldStmt_eq_map body]
  | .doWhile body _ => by rw [foldStmt, Stmt.map, foldStmt_eq_map body]
  | .forLoop init _ _ body => by
      rw [foldStmt, Stmt.map, foldStmts_eq_map init, foldStmt_eq_map body, foldOption_eq_map,
        foldAll_eq_map]
  | .switch _ arms => by rw [foldStmt, Stmt.map, foldArms_eq_map arms]
  | .breakOut => rfl
  | .continueLoop => rfl
  | .returnValue _ _ => by rw [foldStmt, Stmt.map, foldOption_eq_map]
  | .throwValue _ => by rw [foldStmt, Stmt.map, foldOption_eq_map]
termination_by structural code => code

theorem foldStmts_eq_map : ∀ stmts : List Code,
    foldStmts rule stmts = Stmt.mapAll (foldSimple rule) (Expr.fold rule) stmts
  | [] => rfl
  | stmt :: rest => by rw [foldStmts, Stmt.mapAll, foldStmt_eq_map stmt, foldStmts_eq_map rest]
termination_by structural stmts => stmts

theorem foldArms_eq_map : ∀ arms : List (Arm Code),
    foldArms rule arms = Stmt.mapArms (foldSimple rule) (Expr.fold rule) arms
  | [] => rfl
  | ⟨_, body⟩ :: rest => by
      rw [foldArms, Stmt.mapArms, foldStmts_eq_map body, foldArms_eq_map rest]
termination_by structural arms => arms

end

end Folds

section Resolve

variable {Item Result Other : Type} {step : Item → Option Result} (onResult : Result → Other)

/-- The results of a list can be replaced where they are found. -/
theorem mapM_map (items : List Item) :
    (items.mapM step).map (List.map onResult) =
      items.mapM fun item => (step item).map onResult := by
  induction items with
  | nil => rfl
  | cons item rest ih =>
      rw [List.mapM_cons, List.mapM_cons, ← ih]
      cases step item <;> cases rest.mapM step <;> rfl

/-- A change of what is resolved may be made while resolving. -/
theorem resolveOption_map (item? : Option Item) :
    (resolveOption step item?).map (Option.map onResult) =
      resolveOption (fun item => (step item).map onResult) item? := by
  cases item? with
  | none => rfl
  | some item =>
      change ((step item).map some).map (Option.map onResult) = ((step item).map onResult).map some
      cases step item <;> rfl

end Resolve

section Trees

variable {Leaf Part Leaf' Part' : Type} (onLeaf : Leaf → Leaf') (onPart : Part → Part')
  (leaf? : Option Leaf) (expr : ExprId → Option Part) (child : StmtId → Option (Stmt Leaf Part))

/-- The parts of a statement can be replaced in its tree or before the tree is made. -/
theorem Statement.tree?_map (stmt : Statement) :
    (stmt.tree? leaf? expr child).map (Stmt.map onLeaf onPart) =
      stmt.tree? (leaf?.map onLeaf) (fun id => (expr id).map onPart)
        (fun id => (child id).map (Stmt.map onLeaf onPart)) := by
  obtain ⟨kind, span⟩ := stmt
  cases kind with
  | block stmts =>
      simp only [Statement.tree?, ← mapM_map]
      cases stmts.mapM child <;> simp [Stmt.map, Stmt.mapAll_eq_map]
  | switch scrutinee arms =>
      have ofArms :
          (arms.mapM fun arm => do
            let body ← arm.body.mapM fun id => (child id).map (Stmt.map onLeaf onPart)
            return (⟨arm.pattern?, body⟩ : Arm (Stmt Leaf' Part'))) =
          (arms.mapM fun (arm : Arm StmtId) => do
            return (⟨arm.pattern?, ← arm.body.mapM child⟩ : Arm (Stmt Leaf Part))).map
              (List.map fun (arm : Arm (Stmt Leaf Part)) =>
                ⟨arm.pattern?, arm.body.map (Stmt.map onLeaf onPart)⟩) := by
        rw [mapM_map]
        refine congrArg (List.mapM · arms) (funext fun arm => ?_)
        rw [← mapM_map]
        cases arm.body.mapM child <;> rfl
      simp only [Statement.tree?, ofArms]
      simp [Stmt.map, Stmt.mapArms_eq_map, Option.map_bind, Option.bind_map, Function.comp_def]
  | forLoop init condition? updates loop =>
      simp only [Statement.tree?, ← mapM_map, ← resolveOption_map]
      simp [Stmt.map, Stmt.mapAll_eq_map, Option.map_bind, Option.bind_map, Function.comp_def]
  | ifElse condition thenBranch elseBranch? =>
      cases elseBranch? <;>
        simp [Statement.tree?, Stmt.map, Option.map_bind, Option.bind_map, Function.comp_def]
  | returnValue value? =>
      simp only [Statement.tree?, ← resolveOption_map]
      cases resolveOption expr value? <;> simp [Stmt.map]
  | throwValue value? =>
      simp only [Statement.tree?, ← resolveOption_map]
      cases resolveOption expr value? <;> simp [Stmt.map]
  | _ => simp [Statement.tree?, Stmt.map, Option.map_bind, Option.bind_map, Function.comp_def]

end Trees

section Expressions

variable {Result Var Child Block : Type} (rule : Expr.Results Result → Result)
  (var : Var → Option Variable) (child : Child → Option Expr) (block : Block → Option Code)

/-- The result of an expression, left to be made when it is asked for. -/
def Expr.delay (expr : Expr) : Thunk Result := .mk fun _ => expr.fold rule

/-- The tree of the results in code, left to be made when it is asked for. -/
def Code.delay (code : Code) : Thunk (Stmt (Simple Result) Result) := .mk fun _ => foldStmt rule code

/-- Arguments are resolved into parts that wait to be folded, if their values are. -/
theorem resolveArguments_delay (arguments : List (Argument Child)) :
    (arguments.mapM (Argument.resolve child)).map (delayArguments rule) =
      arguments.mapM (Argument.resolve fun part => (child part).map (Expr.delay rule)) := by
  have delayed : delayArguments rule =
      List.map fun argument => ⟨argument.value.delay rule, argument.name?⟩ :=
    funext (delayArguments_eq_map rule)
  rw [delayed, mapM_map]
  refine congrArg (List.mapM · arguments) (funext fun argument => ?_)
  simp only [Argument.resolve]
  cases child argument.value <;> rfl

mutual

/-- An initializer is resolved into parts that wait to be folded, if its values are. -/
theorem Initializer.resolve_delay : ∀ entry : Initializer Child,
    (entry.resolve child).map (delayInitializer rule) =
      entry.resolve fun part => (child part).map (Expr.delay rule)
  | .value member value => by
      simp only [Initializer.resolve]
      cases child value <;> rfl
  | .nested member entries => by
      simp only [Initializer.resolve, ← resolveInitializers_delay entries]
      cases resolveInitializers child entries <;> rfl

theorem resolveInitializers_delay : ∀ entries : List (Initializer Child),
    (resolveInitializers child entries).map (delayInitializers rule) =
      resolveInitializers (fun part => (child part).map (Expr.delay rule)) entries
  | [] => rfl
  | entry :: rest => by
      simp only [resolveInitializers, ← Initializer.resolve_delay entry,
        ← resolveInitializers_delay rest]
      cases entry.resolve child <;> cases resolveInitializers child rest <;> rfl

end

/-- The parts of an expression can be replaced by their results in its tree or before the tree is
made. -/
theorem ExprKind.resolve_delay (kind : ExprKind Var Child Block) :
    (kind.resolve var child block).map (foldKind rule) =
      kind.resolve var (fun part => (child part).map (Expr.delay rule))
        (fun code => (block code).map (Code.delay rule)) := by
  have ofOption (part? : Option Child) :
      resolveOption (fun part => (child part).map (Expr.delay rule)) part? =
        (resolveOption child part?).map (delayOption rule) := by
    cases part? with
    | none => rfl
    | some part =>
        change ((child part).map _).map some = ((child part).map some).map _
        cases child part <;> rfl
  have ofList (parts : List Child) :
      parts.mapM (fun part => (child part).map (Expr.delay rule)) =
        (parts.mapM child).map (delayAll rule) := by
    rw [← mapM_map]
    exact congrArg (Option.map · _) (funext fun exprs => (delayAll_eq_map rule exprs).symm)
  cases kind with
  | member receiver? selected =>
      simp only [ExprKind.resolve, ofOption]
      cases resolveOption child receiver? <;> rfl
  | call receiver? method arguments =>
      simp only [ExprKind.resolve, ofOption, ← resolveArguments_delay]
      cases resolveOption child receiver? <;>
        cases arguments.mapM (Argument.resolve child) <;> rfl
  | create constructor? arguments initializers =>
      simp only [ExprKind.resolve, ← resolveInitializers_delay, ← resolveArguments_delay]
      cases arguments.mapM (Argument.resolve child) <;>
        cases resolveInitializers child initializers <;> rfl
  | array element? items =>
      simp only [ExprKind.resolve, ofList]
      cases items.mapM child <;> rfl
  | bad parts =>
      simp only [ExprKind.resolve, ofList]
      cases parts.mapM child <;> rfl
  | lambda parameters body =>
      cases body with
      | expr value =>
          simp only [ExprKind.resolve, LambdaBody.resolve]
          cases child value <;> rfl
      | block code =>
          simp only [ExprKind.resolve, LambdaBody.resolve]
          cases block code <;> rfl
  | _ =>
      -- Everything else has a fixed number of parts, which are found one by one.
      simp [ExprKind.resolve, foldKind, Expr.delay, Option.map_bind, Option.bind_map,
        Function.comp_def]

end Expressions

end NullFlow
