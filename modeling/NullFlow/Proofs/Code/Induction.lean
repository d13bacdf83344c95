import NullFlow.Proofs.Code.Contents
/-!
Induction over expression trees. The parts of an expression are its direct subexpressions and the
expressions of its body, if it is a lambda.
-/

namespace NullFlow

section Induction

variable {motive : Expr → Prop}
variable (step : ∀ node : Node Variable Expr Code, (∀ child ∈ node.kind.children, motive child) →
  (∀ inner ∈ node.kind.bodyExprs, motive inner) → motive (.node node))

-- Only the first of the theorems applies the step itself.
set_option linter.unusedSectionVars false
include step

mutual

/-- What holds of an expression if it holds of its parts holds of all expressions. -/
theorem Expr.fromParts : ∀ expr : Expr, motive expr
  | .node ⟨kind, ty?, span⟩ =>
      step ⟨kind, ty?, span⟩ (kind_fromParts kind).1 (kind_fromParts kind).2
termination_by structural expr => expr

/-- What passes from parts to nodes holds of the children of an expression and of the expressions in
its lambda bodies. -/
theorem kind_fromParts : ∀ kind : ExprKind Variable Expr Code,
    (∀ child ∈ kind.children, motive child) ∧ ∀ inner ∈ kind.bodyExprs, motive inner
  | .read _ => by simp [ExprKind.children, ExprKind.bodyExprs]
  | .this => by simp [ExprKind.children, ExprKind.bodyExprs]
  | .literal _ => by simp [ExprKind.children, ExprKind.bodyExprs]
  | .defaultValue => by simp [ExprKind.children, ExprKind.bodyExprs]
  | .cast operand => by
      have ofOperand := Expr.fromParts operand
      simpa [ExprKind.children, ExprKind.bodyExprs] using ofOperand
  | .unary _ operand => by
      have ofOperand := Expr.fromParts operand
      simpa [ExprKind.children, ExprKind.bodyExprs] using ofOperand
  | .test operand _ => by
      have ofOperand := Expr.fromParts operand
      simpa [ExprKind.children, ExprKind.bodyExprs] using ofOperand
  | .suppress operand => by
      have ofOperand := Expr.fromParts operand
      simpa [ExprKind.children, ExprKind.bodyExprs] using ofOperand
  | .member receiver? _ => by
      have ofReceiver := option_fromParts receiver?
      simpa [ExprKind.children, ExprKind.bodyExprs] using ofReceiver
  | .index receiver position => by
      have ofReceiver := Expr.fromParts receiver
      have ofPosition := Expr.fromParts position
      simp [ExprKind.children, ExprKind.bodyExprs, ofReceiver, ofPosition]
  | .call receiver? _ arguments => by
      have ofReceiver := option_fromParts receiver?
      have ofArguments := arguments_fromParts arguments
      simp only [ExprKind.children, ExprKind.bodyExprs, List.mem_append, List.not_mem_nil]
      exact ⟨fun child member => member.elim (ofReceiver child) (ofArguments child),
        fun _ member => member.elim⟩
  | .create _ arguments initializers => by
      have ofArguments := arguments_fromParts arguments
      have ofInitializers := initializers_fromParts initializers
      simp only [ExprKind.children, ExprKind.bodyExprs, List.mem_append, List.not_mem_nil]
      exact ⟨fun child member => member.elim (ofArguments child) (ofInitializers child),
        fun _ member => member.elim⟩
  | .array _ items => by
      have ofItems := list_fromParts items
      simpa [ExprKind.children, ExprKind.bodyExprs] using ofItems
  | .conditional condition whenTrue whenFalse => by
      have ofCondition := Expr.fromParts condition
      have ofTrue := Expr.fromParts whenTrue
      have ofFalse := Expr.fromParts whenFalse
      simp [ExprKind.children, ExprKind.bodyExprs, ofCondition, ofTrue, ofFalse]
  | .coalesce left right => by
      have ofLeft := Expr.fromParts left
      have ofRight := Expr.fromParts right
      simp [ExprKind.children, ExprKind.bodyExprs, ofLeft, ofRight]
  | .binary _ left right => by
      have ofLeft := Expr.fromParts left
      have ofRight := Expr.fromParts right
      simp [ExprKind.children, ExprKind.bodyExprs, ofLeft, ofRight]
  | .assign target value => by
      have ofTarget := Expr.fromParts target
      have ofValue := Expr.fromParts value
      simp [ExprKind.children, ExprKind.bodyExprs, ofTarget, ofValue]
  | .lambda _ (.expr value) => by
      have ofValue := Expr.fromParts value
      simpa [ExprKind.children, ExprKind.bodyExprs] using ofValue
  | .lambda _ (.block code) => by
      have ofCode := stmt_fromParts code
      simpa [ExprKind.children, ExprKind.bodyExprs] using ofCode
  | .bad children => by
      have ofChildren := list_fromParts children
      simpa [ExprKind.children, ExprKind.bodyExprs] using ofChildren
termination_by structural kind => kind

theorem option_fromParts : ∀ expr? : Option Expr, ∀ child ∈ expr?.toList, motive child
  | none => by simp
  | some expr => by
      have ofExpr := Expr.fromParts expr
      simpa using ofExpr
termination_by structural expr? => expr?

theorem list_fromParts : ∀ exprs : List Expr, ∀ child ∈ exprs, motive child
  | [] => by simp
  | expr :: rest => by
      have ofExpr := Expr.fromParts expr
      have ofRest := list_fromParts rest
      simpa [ofExpr] using ofRest
termination_by structural exprs => exprs

theorem arguments_fromParts :
    ∀ arguments : List (Argument Expr), ∀ child ∈ arguments.map Argument.value, motive child
  | [] => by simp
  | ⟨value, _⟩ :: rest => by
      have ofValue := Expr.fromParts value
      have ofRest := arguments_fromParts rest
      simp only [List.map_cons, List.mem_cons]
      exact fun child member => member.elim (fun same => same ▸ ofValue) (ofRest child)
termination_by structural arguments => arguments

/-- What passes from parts to nodes holds of the values of an initializer, nested ones included. -/
theorem initializer_fromParts : ∀ entry : Initializer Expr, ∀ child ∈ entry.values, motive child
  | .value _ value => by
      have ofValue := Expr.fromParts value
      simpa [Initializer.values] using ofValue
  | .nested _ entries => initializers_fromParts entries
termination_by structural entry => entry

theorem initializers_fromParts :
    ∀ entries : List (Initializer Expr), ∀ child ∈ initializerValues entries, motive child
  | [] => by simp [initializerValues]
  | entry :: rest => by
      have ofEntry := initializer_fromParts entry
      have ofRest := initializers_fromParts rest
      simp only [initializerValues, List.mem_append]
      exact fun child member => member.elim (ofEntry child) (ofRest child)
termination_by structural entries => entries

theorem simple_fromParts : ∀ leaf : Simple Expr, ∀ inner ∈ leaf.exprs, motive inner
  | .declare _ value? => option_fromParts value?
  | .evaluate expr => by
      have ofExpr := Expr.fromParts expr
      simpa [Simple.exprs] using ofExpr
termination_by structural leaf => leaf

/-- What passes from parts to nodes holds of all expressions of code. -/
theorem stmt_fromParts : ∀ code : Code, ∀ inner ∈ code.allExprs, motive inner
  | .simple leaf => by
      have ofLeaf := simple_fromParts leaf
      simpa [Stmt.allExprs, Stmt.leaves, Stmt.exprs] using ofLeaf
  | .empty => by simp [Stmt.allExprs, Stmt.leaves, Stmt.exprs]
  | .block stmts => stmts_fromParts stmts
  | .ifElse condition thenBranch none => by
      have ofCondition := Expr.fromParts condition
      have ofThen := stmt_fromParts thenBranch
      simp only [Stmt.allExprs, Stmt.leaves, Stmt.exprs, List.mem_append, List.mem_cons] at ofThen ⊢
      rintro inner (inLeaves | rfl | inThen)
      · exact ofThen inner (Or.inl inLeaves)
      · exact ofCondition
      · exact ofThen inner (Or.inr inThen)
  | .ifElse condition thenBranch (some elseBranch) => by
      have ofCondition := Expr.fromParts condition
      have ofThen := stmt_fromParts thenBranch
      have ofElse := stmt_fromParts elseBranch
      simp only [Stmt.allExprs, Stmt.leaves, Stmt.exprs, List.mem_append, List.mem_cons,
        List.flatMap_append] at ofThen ofElse ⊢
      rintro inner ((inThen | inElse) | rfl | inThen | inElse)
      · exact ofThen inner (Or.inl inThen)
      · exact ofElse inner (Or.inl inElse)
      · exact ofCondition
      · exact ofThen inner (Or.inr inThen)
      · exact ofElse inner (Or.inr inElse)
  | .whileLoop condition body => by
      have ofCondition := Expr.fromParts condition
      have ofBody := stmt_fromParts body
      simp only [Stmt.allExprs, Stmt.leaves, Stmt.exprs, List.mem_append, List.mem_cons] at ofBody ⊢
      rintro inner (inLeaves | rfl | inBody)
      · exact ofBody inner (Or.inl inLeaves)
      · exact ofCondition
      · exact ofBody inner (Or.inr inBody)
  | .doWhile body condition => by
      have ofCondition := Expr.fromParts condition
      have ofBody := stmt_fromParts body
      simp only [Stmt.allExprs, Stmt.leaves, Stmt.exprs, List.mem_append, List.mem_cons] at ofBody ⊢
      rintro inner (inLeaves | rfl | inBody)
      · exact ofBody inner (Or.inl inLeaves)
      · exact ofCondition
      · exact ofBody inner (Or.inr inBody)
  | .forLoop init condition? updates body => by
      have ofInit := stmts_fromParts init
      have ofCondition := option_fromParts condition?
      have ofUpdates := list_fromParts updates
      have ofBody := stmt_fromParts body
      simp only [Stmt.allExprs, Stmt.leaves, Stmt.exprs, List.mem_append,
        List.flatMap_append] at ofInit ofBody ⊢
      rintro inner ((inInit | inBody) | inInit | inCondition | inUpdates | inBody)
      · exact ofInit inner (Or.inl inInit)
      · exact ofBody inner (Or.inl inBody)
      · exact ofInit inner (Or.inr inInit)
      · exact ofCondition inner inCondition
      · exact ofUpdates inner inUpdates
      · exact ofBody inner (Or.inr inBody)
  | .switch scrutinee arms => by
      have ofScrutinee := Expr.fromParts scrutinee
      have ofArms := arms_fromParts arms
      simp only [Stmt.allExprs, Stmt.leaves, Stmt.exprs, List.mem_append, List.mem_cons] at ofArms ⊢
      rintro inner (inLeaves | rfl | inArms)
      · exact ofArms inner (Or.inl inLeaves)
      · exact ofScrutinee
      · exact ofArms inner (Or.inr inArms)
  | .breakOut => by simp [Stmt.allExprs, Stmt.leaves, Stmt.exprs]
  | .continueLoop => by simp [Stmt.allExprs, Stmt.leaves, Stmt.exprs]
  | .returnValue value? _ => option_fromParts value?
  | .throwValue value? => option_fromParts value?
termination_by structural code => code

theorem stmts_fromParts : ∀ stmts : List Code, ∀ inner ∈
      (Stmt.leavesAll stmts).flatMap Simple.exprs ++ Stmt.exprsAll stmts, motive inner
  | [] => by simp [Stmt.leavesAll, Stmt.exprsAll]
  | stmt :: rest => by
      have ofStmt := stmt_fromParts stmt
      have ofRest := stmts_fromParts rest
      simp only [Stmt.allExprs, Stmt.leavesAll, Stmt.exprsAll, List.mem_append,
        List.flatMap_append] at ofStmt ofRest ⊢
      rintro inner ((inStmt | inRest) | inStmt | inRest)
      · exact ofStmt inner (Or.inl inStmt)
      · exact ofRest inner (Or.inl inRest)
      · exact ofStmt inner (Or.inr inStmt)
      · exact ofRest inner (Or.inr inRest)
termination_by structural stmts => stmts

theorem arms_fromParts : ∀ arms : List (Arm Code), ∀ inner ∈
      (Stmt.leavesArms arms).flatMap Simple.exprs ++ Stmt.exprsArms arms, motive inner
  | [] => by simp [Stmt.leavesArms, Stmt.exprsArms]
  | ⟨_, body⟩ :: rest => by
      have ofBody := stmts_fromParts body
      have ofRest := arms_fromParts rest
      simp only [Stmt.leavesArms, Stmt.exprsArms, List.mem_append,
        List.flatMap_append] at ofBody ofRest ⊢
      rintro inner ((inBody | inRest) | inBody | inRest)
      · exact ofBody inner (Or.inl inBody)
      · exact ofRest inner (Or.inl inRest)
      · exact ofBody inner (Or.inr inBody)
      · exact ofRest inner (Or.inr inRest)
termination_by structural arms => arms

end

end Induction
end NullFlow
