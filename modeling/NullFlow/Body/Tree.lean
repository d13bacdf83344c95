import NullFlow.Body.Basic
/-!
The trees that the numbers of a body stand for. A node that several parents share becomes a
subtree of each, and is made only once. Numbers outside the arenas and nodes that contain
themselves have no tree.
-/

namespace NullFlow

/-- The tree of a statement from the trees of its parts. A simple statement has the given leaf. -/
def Statement.tree? {Leaf Part : Type} (leaf? : Option Leaf) (expr : ExprId → Option Part)
    (child : StmtId → Option (Stmt Leaf Part)) (stmt : Statement) : Option (Stmt Leaf Part) := do
  match stmt.kind with
  | .declare .. => return .simple (← leaf?)
  | .evaluate _ => return .simple (← leaf?)
  | .empty => return .empty
  | .block stmts => return .block (← stmts.mapM child)
  | .ifElse condition thenBranch none =>
      return .ifElse (← expr condition) (← child thenBranch) none
  | .ifElse condition thenBranch (some elseBranch) =>
      return .ifElse (← expr condition) (← child thenBranch) (some (← child elseBranch))
  | .whileLoop condition loop => return .whileLoop (← expr condition) (← child loop)
  | .doWhile loop condition => return .doWhile (← child loop) (← expr condition)
  | .forLoop init condition? updates loop =>
      return .forLoop (← init.mapM child) (← resolveOption expr condition?)
        (← updates.mapM expr) (← child loop)
  | .switch scrutinee arms =>
      return .switch (← expr scrutinee) (← arms.mapM fun arm => do
        return ⟨arm.pattern?, ← arm.body.mapM child⟩)
  | .breakOut => return .breakOut
  | .continueLoop => return .continueLoop
  | .returnValue value? => return .returnValue (← resolveOption expr value?) stmt.span
  | .throwValue value? => return .throwValue (← resolveOption expr value?)

/-- The trees that are known of the nodes of a body. -/
structure Forest where
  exprs : Array (Option Expr)
  codes : Array (Option Code)

namespace Forest

def expr? (forest : Forest) (id : ExprId) : Option Expr := forest.exprs[id]?.join

def code? (forest : Forest) (id : StmtId) : Option Code := forest.codes[id]?.join

/-- The number of trees that are known. -/
def size (forest : Forest) : Nat :=
  forest.exprs.countP Option.isSome + forest.codes.countP Option.isSome

end Forest

namespace Body

/-- The statement tree over the numbers of simple statements and expressions, down to a depth. -/
def stmtTreeTo? (body : Body) : Nat → StmtId → Option (Stmt StmtId ExprId)
  | 0, _ => none
  | depth + 1, id => do (← body.stmts[id]?).tree? (some id) some (body.stmtTreeTo? depth)

/-- The statement tree over the numbers of simple statements and expressions. No path through
distinct statements is longer than the arena. -/
def stmtTree? (body : Body) (id : StmtId) : Option (Stmt StmtId ExprId) :=
  body.stmtTreeTo? body.stmts.size id

def localVar? (body : Body) (id : LocalId) : Option Variable :=
  body.locals[id]?.map fun declared => ⟨declared, id⟩

/-- A simple statement with what its expressions stand for. -/
def simple? {Part : Type} (body : Body) (expr : ExprId → Option Part) (stmt : Statement) :
    Option (Simple Part) := do
  match stmt.kind with
  | .declare target value? =>
      return .declare (← body.localVar? target) (← resolveOption expr value?)
  | .evaluate value => return .evaluate (← expr value)
  | _ => none

/-- The tree of an expression, if the trees of its parts are known. -/
def exprOver? (body : Body) (forest : Forest) (id : ExprId) : Option Expr := do
  return .node (← (← body.exprs[id]?).resolve body.localVar? forest.expr? forest.code?)

/-- The tree of a statement, if the trees of its parts are known. -/
def codeOver? (body : Body) (forest : Forest) (id : StmtId) : Option Code := do
  let stmt ← body.stmts[id]?
  stmt.tree? (body.simple? forest.expr? stmt) forest.expr? forest.code?

/-- Adds the trees of which all parts are known. -/
def grow (body : Body) (forest : Forest) : Forest where
  exprs := forest.exprs.mapIdx fun id known? => known? <|> body.exprOver? forest id
  codes := forest.codes.mapIdx fun id known? => known? <|> body.codeOver? forest id

/-- Adds trees until there are no more, at most so often. -/
def growTo (body : Body) : Nat → Forest → Forest
  | 0, forest => forest
  | rounds + 1, forest =>
      let next := body.grow forest
      if next.size = forest.size then forest else body.growTo rounds next

/-- The trees of all nodes that have one. Every round but the last adds a tree. -/
def forest (body : Body) : Forest :=
  body.growTo (body.exprs.size + body.stmts.size)
    ⟨Array.replicate body.exprs.size none, Array.replicate body.stmts.size none⟩

/-- The tree of the whole body. -/
def method? (body : Body) : Option Method := do
  return ⟨body.name, body.thisType?, body.returnType, ← body.forest.code? body.root⟩

end Body
end NullFlow
