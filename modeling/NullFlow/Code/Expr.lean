import NullFlow.Code.Stmt
/-!
Expression trees and their folds. A fold computes something of an expression from what it computes
of the subexpressions, and of the expressions inside the bodies of lambdas. It looks only at the
parts that its rule asks for, because trees that share their subtrees can be of exponential size.
-/

namespace NullFlow

/-- An expression with all its subexpressions. -/
inductive Expr where
  | node (node : Node Variable Expr (Stmt (Simple Expr) Expr))

/-- The code of a method or of a lambda. -/
abbrev Code := Stmt (Simple Expr) Expr

/-- A method as a tree. -/
structure Method where
  name : String
  thisType? : Option Ty
  returnType : Ty
  code : Code

/-- The kinds of expressions of which the parts are known by their results, once these are asked
for. -/
abbrev Expr.Results (Result : Type) :=
  Node Variable (Thunk Result) (Thunk (Stmt (Simple Result) Result))

section Fold

variable {Result : Type} (rule : Expr.Results Result → Result)

mutual

/-- Computes the result of an expression from the results of its parts. -/
def Expr.fold : Expr → Result
  | .node ⟨kind, ty?, span⟩ => rule ⟨foldKind kind, ty?, span⟩
termination_by structural expr => expr

/-- Leaves every part of an expression to be folded when it is asked for. -/
def foldKind : ExprKind Variable Expr (Stmt (Simple Expr) Expr) →
    ExprKind Variable (Thunk Result) (Thunk (Stmt (Simple Result) Result))
  | .read source => .read source
  | .this => .this
  | .literal value => .literal value
  | .defaultValue => .defaultValue
  | .cast operand => .cast operand.fold
  | .member receiver? member => .member (delayOption receiver?) member
  | .index receiver position => .index receiver.fold position.fold
  | .call receiver? method arguments =>
      .call (delayOption receiver?) method (delayArguments arguments)
  | .create constructor? arguments initializers =>
      .create constructor? (delayArguments arguments) (delayInitializers initializers)
  | .array element? items => .array element? (delayAll items)
  | .conditional condition whenTrue whenFalse =>
      .conditional condition.fold whenTrue.fold whenFalse.fold
  | .coalesce left right => .coalesce left.fold right.fold
  | .binary operator left right => .binary operator left.fold right.fold
  | .unary operator operand => .unary operator operand.fold
  | .test operand pattern => .test operand.fold pattern
  | .suppress operand => .suppress operand.fold
  | .assign target value => .assign target.fold value.fold
  | .lambda parameters (.expr value) => .lambda parameters (.expr value.fold)
  | .lambda parameters (.block code) => .lambda parameters (.block (foldStmt code))
  | .bad children => .bad (delayAll children)
termination_by structural kind => kind

def delayOption : Option Expr → Option (Thunk Result)
  | none => none
  | some expr => some expr.fold
termination_by structural expr? => expr?

def delayAll : List Expr → List (Thunk Result)
  | [] => []
  | expr :: rest => expr.fold :: delayAll rest
termination_by structural exprs => exprs

def delayArguments : List (Argument Expr) → List (Argument (Thunk Result))
  | [] => []
  | ⟨value, name?⟩ :: rest => ⟨value.fold, name?⟩ :: delayArguments rest
termination_by structural arguments => arguments

def delayInitializer : Initializer Expr → Initializer (Thunk Result)
  | .value member value => .value member value.fold
  | .nested member entries => .nested member (delayInitializers entries)
termination_by structural entry => entry

def delayInitializers : List (Initializer Expr) → List (Initializer (Thunk Result))
  | [] => []
  | entry :: rest => delayInitializer entry :: delayInitializers rest
termination_by structural entries => entries

def foldOption : Option Expr → Option Result
  | none => none
  | some expr => some expr.fold
termination_by structural expr? => expr?

def foldAll : List Expr → List Result
  | [] => []
  | expr :: rest => expr.fold :: foldAll rest
termination_by structural exprs => exprs

def foldSimple : Simple Expr → Simple Result
  | .declare target value? => .declare target (foldOption value?)
  | .evaluate expr => .evaluate expr.fold
termination_by structural simple => simple

/-- Replaces every expression of a statement tree by its result. -/
def foldStmt : Stmt (Simple Expr) Expr → Stmt (Simple Result) Result
  | .simple leaf => .simple (foldSimple leaf)
  | .empty => .empty
  | .block stmts => .block (foldStmts stmts)
  | .ifElse condition thenBranch none => .ifElse condition.fold (foldStmt thenBranch) none
  | .ifElse condition thenBranch (some elseBranch) =>
      .ifElse condition.fold (foldStmt thenBranch) (some (foldStmt elseBranch))
  | .whileLoop condition body => .whileLoop condition.fold (foldStmt body)
  | .doWhile body condition => .doWhile (foldStmt body) condition.fold
  | .forLoop init condition? updates body =>
      .forLoop (foldStmts init) (foldOption condition?) (foldAll updates) (foldStmt body)
  | .switch scrutinee arms => .switch scrutinee.fold (foldArms arms)
  | .breakOut => .breakOut
  | .continueLoop => .continueLoop
  | .returnValue value? span => .returnValue (foldOption value?) span
  | .throwValue value? => .throwValue (foldOption value?)
termination_by structural code => code

def foldStmts : List (Stmt (Simple Expr) Expr) → List (Stmt (Simple Result) Result)
  | [] => []
  | stmt :: rest => foldStmt stmt :: foldStmts rest
termination_by structural stmts => stmts

def foldArms :
    List (Arm (Stmt (Simple Expr) Expr)) → List (Arm (Stmt (Simple Result) Result))
  | [] => []
  | ⟨pattern?, body⟩ :: rest => ⟨pattern?, foldStmts body⟩ :: foldArms rest
termination_by structural arms => arms

end

end Fold
end NullFlow
