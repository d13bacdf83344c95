import NullFlow.Code.Expr
/-!
The simple statements and the expressions that a statement tree contains, and what folds do to
them and to the lists inside expressions. The parts of an expression are evaluated along with it. The
expressions in the bodies of lambdas belong to it too, but they are evaluated apart.
-/

namespace NullFlow

def Simple.exprs {Expr : Type} : Simple Expr → List Expr
  | .declare _ value? => value?.toList
  | .evaluate expr => [expr]

namespace Stmt

variable {Leaf Expr : Type}

mutual

/-- The simple statements inside a statement. -/
def leaves : Stmt Leaf Expr → List Leaf
  | .simple leaf => [leaf]
  | .empty => []
  | .block stmts => leavesAll stmts
  | .ifElse _ thenBranch none => leaves thenBranch
  | .ifElse _ thenBranch (some elseBranch) => leaves thenBranch ++ leaves elseBranch
  | .whileLoop _ body => leaves body
  | .doWhile body _ => leaves body
  | .forLoop init _ _ body => leavesAll init ++ leaves body
  | .switch _ arms => leavesArms arms
  | .breakOut => []
  | .continueLoop => []
  | .returnValue .. => []
  | .throwValue _ => []

def leavesAll : List (Stmt Leaf Expr) → List Leaf
  | [] => []
  | stmt :: rest => leaves stmt ++ leavesAll rest

def leavesArms : List (Arm (Stmt Leaf Expr)) → List Leaf
  | [] => []
  | ⟨_, body⟩ :: rest => leavesAll body ++ leavesArms rest

end

mutual

/-- The expressions inside a statement that are not part of a simple statement. -/
def exprs : Stmt Leaf Expr → List Expr
  | .simple _ => []
  | .empty => []
  | .block stmts => exprsAll stmts
  | .ifElse condition thenBranch none => condition :: exprs thenBranch
  | .ifElse condition thenBranch (some elseBranch) =>
      condition :: (exprs thenBranch ++ exprs elseBranch)
  | .whileLoop condition body => condition :: exprs body
  | .doWhile body condition => condition :: exprs body
  | .forLoop init condition? updates body =>
      exprsAll init ++ (condition?.toList ++ (updates ++ exprs body))
  | .switch scrutinee arms => scrutinee :: exprsArms arms
  | .breakOut => []
  | .continueLoop => []
  | .returnValue value? _ => value?.toList
  | .throwValue value? => value?.toList

def exprsAll : List (Stmt Leaf Expr) → List Expr
  | [] => []
  | stmt :: rest => exprs stmt ++ exprsAll rest

def exprsArms : List (Arm (Stmt Leaf Expr)) → List Expr
  | [] => []
  | ⟨_, body⟩ :: rest => exprsAll body ++ exprsArms rest

end

end Stmt

/-- All expressions of code that are not part of another expression. -/
def Stmt.allExprs {Expr : Type} (code : Stmt (Simple Expr) Expr) : List Expr :=
  code.leaves.flatMap Simple.exprs ++ code.exprs

/-- All simple statements and all other expressions inside a statement are of these kinds. -/
structure Stmt.Over {Leaf Part : Type} (ofLeaf : Leaf → Prop) (ofPart : Part → Prop)
    (code : Stmt Leaf Part) : Prop where
  leaves : ∀ leaf ∈ code.leaves, ofLeaf leaf
  exprs : ∀ part ∈ code.exprs, ofPart part

/-- A simple statement declares a local of this kind and evaluates expressions of the other one. -/
def Simple.Over {Expr : Type} (ofTarget : Variable → Prop) (ofExpr : Expr → Prop) :
    Simple Expr → Prop
  | .declare target value? => ofTarget target ∧ ∀ value ∈ value?, ofExpr value
  | .evaluate value => ofExpr value

/-- All declared locals and all expressions of code that are not part of another one are of these
kinds. -/
def Code.MadeOf (ofTarget : Variable → Prop) (ofExpr : Expr → Prop) (code : Code) : Prop :=
  Stmt.Over (Simple.Over ofTarget ofExpr) ofExpr code

/-- Code made of some expressions is made of more of them. -/
theorem Code.MadeOf.mono {ofTarget : Variable → Prop} {ofExpr other : Expr → Prop} {code : Code}
    (made : Code.MadeOf ofTarget ofExpr code) (weaker : ∀ expr, ofExpr expr → other expr) :
    Code.MadeOf ofTarget other code where
  leaves leaf member := by
    have ofLeaf := made.leaves leaf member
    cases leaf with
    | declare target value? =>
        exact ⟨ofLeaf.1, fun value isValue => weaker value (ofLeaf.2 value isValue)⟩
    | evaluate value => exact weaker value ofLeaf
  exprs expr member := weaker expr (made.exprs expr member)

theorem Code.MadeOf.allExprs {ofTarget : Variable → Prop} {ofExpr : Expr → Prop} {code : Code}
    (made : Code.MadeOf ofTarget ofExpr code) : ∀ expr ∈ code.allExprs, ofExpr expr := by
  intro expr member
  rcases List.mem_append.mp member with inLeaf | inCode
  · obtain ⟨leaf, inCode, inLeaf⟩ := List.mem_flatMap.mp inLeaf
    have ofLeaf := made.leaves leaf inCode
    cases leaf with
    | declare target value? => exact ofLeaf.2 expr (Option.mem_toList.mp inLeaf)
    | evaluate value =>
        obtain rfl := List.mem_singleton.mp inLeaf
        exact ofLeaf
  · exact made.exprs expr inCode

/-- The expressions of the body of a lambda. -/
def ExprKind.bodyExprs {Var Expr : Type} : ExprKind Var Expr (Stmt (Simple Expr) Expr) → List Expr
  | .lambda _ (.expr value) => [value]
  | .lambda _ (.block code) => code.allExprs
  | _ => []

section Members

def Signature.types (signature : Signature) : List Ty :=
  signature.returnType :: signature.parameters.map Parameter.ty

def Pattern.types : Pattern → List Ty
  | .null => []
  | .type ty => [ty]

variable {Var Child Code : Type}

mutual

/-- The members that an initializer entry sets. -/
def Initializer.members : Initializer Child → List Member
  | .value member _ => [member]
  | .nested member entries => member :: initializerMembers entries

def initializerMembers : List (Initializer Child) → List Member
  | [] => []
  | entry :: rest => entry.members ++ initializerMembers rest

end

/-- The members that the expression names itself. -/
def ExprKind.members : ExprKind Var Child Code → List Member
  | .member _ selected => [selected]
  | .create _ _ initializers => initializerMembers initializers
  | _ => []

namespace ExprKind

/-- The methods and constructors that the expression calls itself. -/
def callees : ExprKind Var Child Code → List Signature
  | .call _ method _ => [method]
  | .create constructor? _ _ => constructor?.toList
  | _ => []

/-- The types that the expression names itself. -/
def types (kind : ExprKind Var Child Code) : List Ty :=
  kind.members.map Member.ty ++ kind.callees.flatMap Signature.types ++
    match kind with
    | .array element? _ => element?.toList
    | .test _ pattern => pattern.types
    | _ => []

def isArray : ExprKind Var Child Code → Bool
  | .array .. => true
  | _ => false

def isLambda : ExprKind Var Child Code → Bool
  | .lambda .. => true
  | _ => false

end ExprKind

end Members

section Folds

variable {Result : Type} (rule : Expr.Results Result → Result)

/-- The fold of a node applies the rule to the folds of its parts. -/
theorem Expr.fold_node (node : Node Variable Expr (Stmt (Simple Expr) Expr)) :
    (Expr.node node).fold rule = rule ⟨foldKind rule node.kind, node.ty?, node.span⟩ := rfl

/-- The folds of several expressions are one fold each. -/
theorem foldAll_eq_map (exprs : List Expr) : foldAll rule exprs = exprs.map (Expr.fold rule) := by
  induction exprs with
  | nil => rfl
  | cons expr rest ih => rw [foldAll, ih, List.map_cons]

theorem foldOption_eq_map (expr? : Option Expr) :
    foldOption rule expr? = expr?.map (Expr.fold rule) := by
  cases expr? <;> rfl

/-- The parts of a list are folded when they are asked for. -/
theorem delayAll_eq_map (exprs : List Expr) :
    delayAll rule exprs = exprs.map fun expr => Thunk.mk fun _ => expr.fold rule := by
  induction exprs with
  | nil => rfl
  | cons expr rest ih => rw [delayAll, ih, List.map_cons]

theorem delayArguments_eq_map (arguments : List (Argument Expr)) :
    delayArguments rule arguments = arguments.map fun argument =>
      ⟨Thunk.mk fun _ => argument.value.fold rule, argument.name?⟩ := by
  induction arguments with
  | nil => rfl
  | cons argument rest ih => rw [delayArguments, ih, List.map_cons]

mutual

/-- Folding the values of an initializer leaves its members alone. -/
theorem members_delayInitializer : ∀ entry : Initializer Expr,
    (delayInitializer rule entry).members = entry.members
  | .value _ _ => rfl
  | .nested member entries => congrArg (member :: ·) (members_delayInitializers entries)

theorem members_delayInitializers : ∀ entries : List (Initializer Expr),
    initializerMembers (delayInitializers rule entries) = initializerMembers entries
  | [] => rfl
  | entry :: rest => by
      rw [delayInitializers, initializerMembers, initializerMembers, members_delayInitializer entry,
        members_delayInitializers rest]

end

mutual

/-- The leaves of folded code are the folded leaves. -/
theorem leaves_foldStmt : ∀ code : Code,
    (foldStmt rule code).leaves = code.leaves.map (foldSimple rule)
  | .simple _ => rfl
  | .empty => rfl
  | .block stmts => leavesAll_foldStmts stmts
  | .ifElse _ thenBranch none => leaves_foldStmt thenBranch
  | .ifElse _ thenBranch (some elseBranch) => by
      simp only [foldStmt, Stmt.leaves, List.map_append, leaves_foldStmt thenBranch,
        leaves_foldStmt elseBranch]
  | .whileLoop _ body => leaves_foldStmt body
  | .doWhile body _ => leaves_foldStmt body
  | .forLoop init _ _ body => by
      simp only [foldStmt, Stmt.leaves, List.map_append, leavesAll_foldStmts init,
        leaves_foldStmt body]
  | .switch _ arms => leavesArms_foldArms arms
  | .breakOut => rfl
  | .continueLoop => rfl
  | .returnValue _ _ => rfl
  | .throwValue _ => rfl

theorem leavesAll_foldStmts : ∀ stmts : List Code,
    Stmt.leavesAll (foldStmts rule stmts) = (Stmt.leavesAll stmts).map (foldSimple rule)
  | [] => rfl
  | stmt :: rest => by
      simp only [foldStmts, Stmt.leavesAll, List.map_append, leaves_foldStmt stmt,
        leavesAll_foldStmts rest]

theorem leavesArms_foldArms : ∀ arms : List (Arm Code),
    Stmt.leavesArms (foldArms rule arms) = (Stmt.leavesArms arms).map (foldSimple rule)
  | [] => rfl
  | ⟨_, body⟩ :: rest => by
      simp only [foldArms, Stmt.leavesArms, List.map_append, leavesAll_foldStmts body,
        leavesArms_foldArms rest]

end

mutual

/-- The conditions and updates of folded code are the folded ones. -/
theorem exprs_foldStmt : ∀ code : Code,
    (foldStmt rule code).exprs = code.exprs.map (Expr.fold rule)
  | .simple _ => rfl
  | .empty => rfl
  | .block stmts => exprsAll_foldStmts stmts
  | .ifElse _ thenBranch none => by
      simp only [foldStmt, Stmt.exprs, List.map_cons, exprs_foldStmt thenBranch]
  | .ifElse _ thenBranch (some elseBranch) => by
      simp only [foldStmt, Stmt.exprs, List.map_cons, List.map_append, exprs_foldStmt thenBranch,
        exprs_foldStmt elseBranch]
  | .whileLoop _ body => by
      simp only [foldStmt, Stmt.exprs, List.map_cons, exprs_foldStmt body]
  | .doWhile body _ => by
      simp only [foldStmt, Stmt.exprs, List.map_cons, exprs_foldStmt body]
  | .forLoop init condition? updates body => by
      simp only [foldStmt, Stmt.exprs, List.map_append, exprsAll_foldStmts init,
        foldOption_eq_map, foldAll_eq_map, exprs_foldStmt body]
      cases condition? <;> rfl
  | .switch _ arms => by
      simp only [foldStmt, Stmt.exprs, List.map_cons, exprsArms_foldArms arms]
  | .breakOut => rfl
  | .continueLoop => rfl
  | .returnValue value? _ => by cases value? <;> rfl
  | .throwValue value? => by cases value? <;> rfl

theorem exprsAll_foldStmts : ∀ stmts : List Code,
    Stmt.exprsAll (foldStmts rule stmts) = (Stmt.exprsAll stmts).map (Expr.fold rule)
  | [] => rfl
  | stmt :: rest => by
      simp only [foldStmts, Stmt.exprsAll, List.map_append, exprs_foldStmt stmt,
        exprsAll_foldStmts rest]

theorem exprsArms_foldArms : ∀ arms : List (Arm Code),
    Stmt.exprsArms (foldArms rule arms) = (Stmt.exprsArms arms).map (Expr.fold rule)
  | [] => rfl
  | ⟨_, body⟩ :: rest => by
      simp only [foldArms, Stmt.exprsArms, List.map_append, exprsAll_foldStmts body,
        exprsArms_foldArms rest]

end

theorem exprs_foldSimple (leaf : Simple Expr) :
    (foldSimple rule leaf).exprs = leaf.exprs.map (Expr.fold rule) := by
  cases leaf with
  | declare target value? => cases value? <;> rfl
  | evaluate expr => rfl

/-- All expressions of folded code are folded, in the same order. -/
theorem allExprs_foldStmt (code : Code) :
    (foldStmt rule code).allExprs = code.allExprs.map (Expr.fold rule) := by
  simp only [Stmt.allExprs, leaves_foldStmt, exprs_foldStmt, List.map_append, List.map_flatMap,
    List.flatMap_map, exprs_foldSimple]

end Folds

section Subexpressions

/-- The second expression is evaluated as a part of the first one. -/
inductive Expr.Evaluates : Expr → Expr → Prop where
  | itself (expr : Expr) : Evaluates expr expr
  | part {node : Node Variable Expr Code} {child inner : Expr} :
      child ∈ node.kind.children → Evaluates child inner → Evaluates (.node node) inner

/-- The second expression is a part of the first one, or of the body of a lambda in it. -/
inductive Expr.Contains : Expr → Expr → Prop where
  | itself (expr : Expr) : Contains expr expr
  | part {node : Node Variable Expr Code} {child inner : Expr} :
      child ∈ node.kind.children → Contains child inner → Contains (.node node) inner
  | body {node : Node Variable Expr Code} {child inner : Expr} :
      child ∈ node.kind.bodyExprs → Contains child inner → Contains (.node node) inner

/-- A node evaluates itself and what its children evaluate. -/
theorem Expr.evaluates_node {node : Node Variable Expr Code} {inner : Expr} :
    (Expr.node node).Evaluates inner ↔
      inner = .node node ∨ ∃ child ∈ node.kind.children, child.Evaluates inner := by
  constructor
  · intro inside
    cases inside with
    | itself => exact .inl rfl
    | part member inside => exact .inr ⟨_, member, inside⟩
  · rintro (rfl | ⟨child, member, inside⟩)
    · exact .itself _
    · exact .part member inside

/-- A node contains itself, what its children contain, and what its lambda bodies contain. -/
theorem Expr.contains_node {node : Node Variable Expr Code} {inner : Expr} :
    (Expr.node node).Contains inner ↔ inner = .node node ∨
      (∃ child ∈ node.kind.children, child.Contains inner) ∨
      ∃ child ∈ node.kind.bodyExprs, child.Contains inner := by
  constructor
  · intro inside
    cases inside with
    | itself => exact .inl rfl
    | part member inside => exact .inr (.inl ⟨_, member, inside⟩)
    | body member inside => exact .inr (.inr ⟨_, member, inside⟩)
  · rintro (rfl | ⟨child, member, inside⟩ | ⟨child, member, inside⟩)
    · exact .itself _
    · exact .part member inside
    · exact .body member inside

/-- The locals that a statement declares, unless it is part of another one. -/
def Simple.declared {Expr : Type} : Simple Expr → List Variable
  | .declare target _ => [target]
  | .evaluate _ => []

/-- The locals that the body of a lambda declares itself. -/
def ExprKind.declared {Var Expr : Type} :
    ExprKind Var Expr (Stmt (Simple Expr) Expr) → List Variable
  | .lambda _ (.block code) => code.leaves.flatMap Simple.declared
  | _ => []

/-- The member of an object that the expression denotes. -/
def Expr.memberOf? : Expr → Option Member
  | .node ⟨.member (some _) member, _, _⟩ => some member
  | _ => none

/-- An expression that names a member of a receiver is a member access. -/
theorem Expr.memberOf?_eq_some {expr : Expr} {member : Member}
    (isMember : expr.memberOf? = some member) :
    ∃ receiver ty? span, expr = .node ⟨.member (some receiver) member, ty?, span⟩ := by
  unfold memberOf? at isMember
  split at isMember
  · obtain rfl := Option.some.inj isMember
    exact ⟨_, _, _, rfl⟩
  · cases isMember

/-- The expression assigns something, and not only where the body of a lambda is run. -/
def Expr.Assigns (expr : Expr) : Prop :=
  ∃ node, expr.Evaluates (.node node) ∧ ∃ target value, node.kind = .assign target value

/-- The expression names a member of the name, be it in the body of a lambda. -/
def Expr.NamesMember (expr : Expr) (name : String) : Prop :=
  ∃ node, expr.Contains (.node node) ∧ ∃ member ∈ node.kind.members, member.name = name

/-- The expression reads or declares the local, be it in the body of a lambda. -/
def Expr.Mentions (expr : Expr) (id : LocalId) : Prop :=
  ∃ node, expr.Contains (.node node) ∧
    ((∃ source, node.kind = .read source ∧ source.id = id) ∨
      ∃ target ∈ node.kind.declared, target.id = id)

end Subexpressions
end NullFlow
