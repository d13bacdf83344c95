import NullFlow.Code.Expr
/-!
Method bodies as a front end hands them over. Expressions, statements and locals lie in arenas and
refer to each other by number.
-/

namespace NullFlow

inductive StmtKind where
  | block (stmts : List StmtId)
  | declare (target : LocalId) (value? : Option ExprId)
  | evaluate (expr : ExprId)
  | ifElse (condition : ExprId) (thenBranch : StmtId) (elseBranch? : Option StmtId)
  | whileLoop (condition : ExprId) (body : StmtId)
  | doWhile (body : StmtId) (condition : ExprId)
  | forLoop (init : List StmtId) (condition? : Option ExprId) (updates : List ExprId)
      (body : StmtId)
  | switch (scrutinee : ExprId) (arms : List (Arm StmtId))
  | breakOut
  | continueLoop
  | returnValue (value? : Option ExprId)
  | throwValue (value? : Option ExprId)
  | empty

namespace StmtKind

/-- The statements directly inside a statement, in source order. -/
def childStmts : StmtKind → List StmtId
  | block stmts => stmts
  | ifElse _ thenBranch elseBranch? => thenBranch :: elseBranch?.toList
  | whileLoop _ body => [body]
  | doWhile body _ => [body]
  | forLoop init _ _ body => init ++ [body]
  | switch _ arms => arms.flatMap Arm.body
  | declare .. => []
  | evaluate _ => []
  | breakOut => []
  | continueLoop => []
  | returnValue _ => []
  | throwValue _ => []
  | empty => []

/-- The expressions directly inside a statement, in source order. -/
def childExprs : StmtKind → List ExprId
  | declare _ value? => value?.toList
  | evaluate expr => [expr]
  | ifElse condition _ _ => [condition]
  | whileLoop condition _ => [condition]
  | doWhile _ condition => [condition]
  | forLoop _ condition? updates _ => condition?.toList ++ updates
  | switch scrutinee _ => [scrutinee]
  | returnValue value? => value?.toList
  | throwValue value? => value?.toList
  | block _ => []
  | breakOut => []
  | continueLoop => []
  | empty => []

end StmtKind

structure Statement where
  kind : StmtKind
  span : Span

/-- An expression of an arena. -/
abbrev ArenaExpr := Node LocalId ExprId StmtId

structure Body where
  name : String
  span? : Option Span
  /-- The type of `this`. Static methods have none. -/
  thisType? : Option Ty
  parameters : List LocalId
  returnType : Ty
  locals : Array Local
  exprs : Array ArenaExpr
  stmts : Array Statement
  root : StmtId

/-- An expression or a statement of a body. -/
inductive NodeId where
  | expr (id : ExprId)
  | stmt (id : StmtId)
deriving DecidableEq

/-- A number that a body stores, with the arena that it points into. -/
inductive Reference where
  | expr (id : ExprId)
  | stmt (id : StmtId)
  | localVar (id : LocalId)
deriving DecidableEq

namespace Body

/-- The number points into its arena. -/
def covers (body : Body) : Reference → Bool
  | .expr id => id < body.exprs.size
  | .stmt id => id < body.stmts.size
  | .localVar id => id < body.locals.size

/-- The nodes directly inside a node. They include the body of a lambda. A number outside its
arena has no answer. -/
def children? (body : Body) : NodeId → Option (List NodeId)
  | .expr id => body.exprs[id]?.map fun expr =>
      expr.kind.children.map .expr ++
        match expr.kind with
        | .lambda _ (.expr value) => [.expr value]
        | .lambda _ (.block code) => [.stmt code]
        | _ => []
  | .stmt id => body.stmts[id]?.map fun stmt =>
      stmt.kind.childStmts.map .stmt ++ stmt.kind.childExprs.map .expr

end Body
end NullFlow
