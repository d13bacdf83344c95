import NullFlow.Code.Node
/-!
Statement trees. A tree leaves open what its simple statements and its expressions are, so that
one lowering serves trees of numbers, of syntax and of meanings.
-/

namespace NullFlow

/-- One arm of a switch. The arm without a pattern is taken if no other fits. -/
structure Arm (Body : Type) where
  pattern? : Option Pattern
  body : List Body

inductive Stmt (Leaf Expr : Type) where
  /-- A statement without inner control flow. -/
  | simple (leaf : Leaf)
  | empty
  | block (stmts : List (Stmt Leaf Expr))
  | ifElse (condition : Expr) (thenBranch : Stmt Leaf Expr) (elseBranch? : Option (Stmt Leaf Expr))
  | whileLoop (condition : Expr) (body : Stmt Leaf Expr)
  | doWhile (body : Stmt Leaf Expr) (condition : Expr)
  | forLoop (init : List (Stmt Leaf Expr)) (condition? : Option Expr) (updates : List Expr)
      (body : Stmt Leaf Expr)
  | switch (scrutinee : Expr) (arms : List (Arm (Stmt Leaf Expr)))
  | breakOut
  | continueLoop
  | returnValue (value? : Option Expr) (span : Span)
  | throwValue (value? : Option Expr)

/-- A simple statement: the declaration of a variable or the evaluation of an expression. -/
inductive Simple (Expr : Type) where
  | declare (target : Variable) (value? : Option Expr)
  | evaluate (expr : Expr)

end NullFlow
