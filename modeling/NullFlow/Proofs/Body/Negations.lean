import NullFlow.Proofs.Analysis.Reachability
import NullFlow.Proofs.Body.Methods
/-!
Conditions whose negations are pushed inward. The negation of a connective is the other connective of
the negations, and exchanging the outcomes of both sides exchanges the outcomes of the whole, because
the right side is then entered on the other outcome of the left side.
-/

namespace NullFlow

/-- A condition over expressions that it does not look into. -/
inductive Condition where
  | leaf (expr : Expr)
  | constant (value : Bool)
  /-- A test whether two values are equal, or whether they differ. -/
  | comparison (isEqual : Bool) (left right : Expr)
  | not (operand : Condition)
  /-- A conjunction or a disjunction. -/
  | connective (isAnd : Bool) (left right : Condition)

namespace Condition

/-- The condition or its negation, with a negation only in front of leaves. -/
def inward (negated : Bool) : Condition → Condition
  | leaf expr => if negated then not (leaf expr) else leaf expr
  | constant value => constant (value != negated)
  | comparison isEqual left right => comparison (isEqual != negated) left right
  | not operand => operand.inward !negated
  | connective isAnd left right =>
      connective (isAnd != negated) (left.inward negated) (right.inward negated)
termination_by structural condition => condition

end Condition

section Expressions

def comparisonOp (isEqual : Bool) : BinaryOp := if isEqual then .equal else .notEqual

def connectiveOp (isAnd : Bool) : BinaryOp := if isAnd then .and else .or

/-- The expression has the shape, with any type and at any place in the source. -/
def Expr.HasKind (expr : Expr) (kind : ExprKind Variable Expr Code) : Prop :=
  ∃ ty? span, expr = .node ⟨kind, ty?, span⟩

/-- The expression is the condition written out. -/
def Expr.Writes (expr : Expr) : Condition → Prop
  | .leaf inner => expr = inner
  | .constant value => expr.HasKind (.literal (.bool value))
  | .comparison isEqual left right => expr.HasKind (.binary (comparisonOp isEqual) left right)
  | .not operand => ∃ inner : Expr, expr.HasKind (.unary .not inner) ∧ inner.Writes operand
  | .connective isAnd left right => ∃ first second : Expr,
      expr.HasKind (.binary (connectiveOp isAnd) first second) ∧ first.Writes left ∧
        second.Writes right

end Expressions

section Outcomes

/-- The outcomes of a condition or of its negation. -/
def Branches.turned (negated : Bool) (branches : Branches) : Branches :=
  if negated then ⟨branches.whenFalse, branches.whenTrue⟩ else branches

/-- Branches that are swapped twice are as before. -/
theorem Branches.turned_turned (first second : Bool) (branches : Branches) :
    (branches.turned first).turned second = branches.turned (first != second) := by
  cases first <;> cases second <;> rfl

/-- The second meaning does what the first one does, and has its outcomes or those of its negation. -/
def Meaning.Turns (negated : Bool) (meaning other : Meaning) : Prop :=
  ∀ store session, other.branches store session =
    ((meaning.branches store session).1.turned negated, (meaning.branches store session).2)

variable {context : Context} {negated : Bool} {ty? otherTy? : Option Ty} {span otherSpan : Span}

/-- Conditions that control does not come to have the same outcomes. -/
theorem Meaning.Turns.guard {meaning other : Meaning} {rule otherRule : Store → Analysis Branches}
    (isRule : meaning.branches = guardBranches rule)
    (isOther : other.branches = guardBranches otherRule)
    (turns : ∀ store session, otherRule store session =
      ((rule store session).1.turned negated, (rule store session).2)) :
    meaning.Turns negated other := by
  intro store session
  rw [isRule, isOther]
  cases store with
  | unreachable => cases negated <;> rfl
  | reachable facts => exact turns (.reachable facts) session

/-- A negation swaps the branches of its operand. -/
theorem turns_not (context : Context) (operand : Expr) (ty? : Option Ty) (span : Span) :
    (operand.meaning context).Turns true
      ((Expr.node ⟨.unary .not operand, ty?, span⟩).meaning context) := by
  intro store session
  cases store with
  | unreachable => rw [(meaning_decides context operand).undecided]; rfl
  | reachable facts => rfl

/-- The negation of a boolean literal is the other literal. -/
theorem turns_constant (context : Context) (negated value : Bool) :
    ((Expr.node ⟨.literal (.bool value), ty?, span⟩).meaning context).Turns negated
      ((Expr.node ⟨.literal (.bool (value != negated)), otherTy?, otherSpan⟩).meaning context) := by
  refine Meaning.Turns.guard rfl rfl fun store session => ?_
  cases value <;> cases negated <;> rfl

/-- Both comparisons evaluate the operands alike and differ in the order of the outcomes. -/
theorem turns_comparison (context : Context) (negated isEqual : Bool) (left right : Expr) :
    ((Expr.node ⟨.binary (comparisonOp isEqual) left right, ty?, span⟩).meaning context).Turns negated
      ((Expr.node ⟨.binary (comparisonOp (isEqual != negated)) left right, otherTy?,
        otherSpan⟩).meaning context) := by
  have isRule (isEqual : Bool) (ty? : Option Ty) (span : Span) :
      ((Expr.node ⟨.binary (comparisonOp isEqual) left right, ty?, span⟩).meaning context).branches =
        Meaning.guardBranches
          (equalityRule (!isEqual) (left.part context) (right.part context)) := by
    cases isEqual <;> rfl
  refine Meaning.Turns.guard (isRule ..) (isRule ..) fun store session => ?_
  cases isEqual <;> cases negated <;> rfl

/-- The rule of a connective, step by step. The right side is entered on the outcome of the left side
that does not decide the whole. -/
theorem connectiveRule_run (isAnd : Bool) (left right : Part) (store : Store) (session : Session) :
    (if isAnd then andRule else orRule) left right store session =
      let first := left.branches store session
      let second := right.branches (first.1.turned !isAnd).whenTrue first.2
      let skipped := (first.1.turned !isAnd).whenFalse
      let outcome := second.1.turned !isAnd
      ((⟨outcome.whenTrue, skipped.join second.2.slots outcome.whenFalse⟩ : Branches).turned !isAnd,
        second.2) := by
  cases isAnd <;> rfl

/-- The negation of a connective is the other connective of the negated operands. -/
theorem turns_connective (isAnd : Bool) {left right otherLeft otherRight : Expr}
    (turnsLeft : (left.meaning context).Turns negated (otherLeft.meaning context))
    (turnsRight : (right.meaning context).Turns negated (otherRight.meaning context)) :
    ((Expr.node ⟨.binary (connectiveOp isAnd) left right, ty?, span⟩).meaning context).Turns negated
      ((Expr.node ⟨.binary (connectiveOp (isAnd != negated)) otherLeft otherRight, otherTy?,
        otherSpan⟩).meaning context) := by
  have isRule (isAnd : Bool) (left right : Expr) (ty? : Option Ty) (span : Span) :
      ((Expr.node ⟨.binary (connectiveOp isAnd) left right, ty?, span⟩).meaning context).branches =
        Meaning.guardBranches
          ((if isAnd then andRule else orRule) (left.part context) (right.part context)) := by
    cases isAnd <;> rfl
  have ofLeft : ∀ store session, (otherLeft.part context).branches store session = _ := turnsLeft
  have ofRight : ∀ store session, (otherRight.part context).branches store session = _ := turnsRight
  refine Meaning.Turns.guard (isRule ..) (isRule ..) fun store session => ?_
  -- The connective and the left side are both turned, so the right sides are entered with one store.
  simp only [connectiveRule_run, ofLeft, ofRight, Branches.turned_turned]
  cases isAnd <;> cases negated <;> rfl

end Outcomes

/-- The negations of a condition can be pushed inward without changing what the analysis does. -/
theorem inward_turns (context : Context) (condition : Condition) : ∀ (negated : Bool)
    {expr other : Expr}, expr.Writes condition → other.Writes (condition.inward negated) →
      (expr.meaning context).Turns negated (other.meaning context) := by
  induction condition with
  | leaf inner =>
      rintro (_ | _) expr other rfl writes
      · obtain rfl : other = expr := writes
        exact fun _ _ => rfl
      · obtain ⟨_, ⟨ty?, span, rfl⟩, rfl⟩ := writes
        exact turns_not context _ ty? span
  | constant value =>
      rintro negated _ _ ⟨ty?, span, rfl⟩ ⟨otherTy?, otherSpan, rfl⟩
      exact turns_constant context negated value
  | comparison isEqual left right =>
      rintro negated _ _ ⟨ty?, span, rfl⟩ ⟨otherTy?, otherSpan, rfl⟩
      exact turns_comparison context negated isEqual left right
  | not operand ih =>
      rintro negated _ other ⟨inner, ⟨ty?, span, rfl⟩, writes⟩ writesOther
      -- The negation turns the outcomes of its operand, and the operand is turned the other way.
      have turns := ih (!negated) writes writesOther
      intro store session
      rw [turns_not, turns, Branches.turned_turned]
      cases negated <;> rfl
  | connective isAnd left right ihLeft ihRight =>
      rintro negated _ _ ⟨first, second, ⟨ty?, span, rfl⟩, writesFirst, writesSecond⟩
        ⟨otherFirst, otherSecond, ⟨otherTy?, otherSpan, rfl⟩, writesOtherFirst, writesOtherSecond⟩
      exact turns_connective isAnd (ihLeft negated writesFirst writesOtherFirst)
        (ihRight negated writesSecond writesOtherSecond)

namespace Body

/-- In a valid body, a condition and the same condition with its negations pushed inward send the same
stores to both outcomes, and they find the same slots and report the same in the same order. -/
theorem inward_same_branches (body : Body) (valid : body.validate = .ok ()) {id other : ExprId}
    (reached : body.Reaches (.expr id)) (reachedOther : body.Reaches (.expr other)) :
    ∃ tree twin, body.forest.expr? id = some tree ∧ body.forest.expr? other = some twin ∧
      ∀ condition, tree.Writes condition → twin.Writes (condition.inward false) →
        ∀ context store session, (twin.meaning context).branches store session =
          (tree.meaning context).branches store session := by
  obtain ⟨tree, isTree⟩ := forest_has valid reached
  obtain ⟨twin, isTwin⟩ := forest_has valid reachedOther
  refine ⟨tree, twin, isTree, isTwin, fun condition writes writesTwin context => ?_⟩
  exact inward_turns context condition false writes writesTwin

section Example

/-- A test that two variables are not null and a flag holds, first by a negation of what is wrong and
then directly. -/
def twoTests : Body where
  name := "M"
  span? := none
  thisType? := none
  parameters := [0, 1, 2]
  returnType := .void
  locals := #[⟨"x", .named "C" [] .nullable, false⟩, ⟨"y", .named "C" [] .nullable, false⟩,
    ⟨"b", .value "bool" .plain, false⟩]
  exprs := #[⟨.read 0, some (.named "C" [] .nullable), .none⟩,
    ⟨.literal .null, some (.null .plain), .none⟩,
    ⟨.binary .equal 0 1, some (.value "bool" .plain), .none⟩,
    ⟨.read 1, some (.named "C" [] .nullable), .none⟩,
    ⟨.binary .notEqual 3 1, some (.value "bool" .plain), .none⟩,
    ⟨.read 2, some (.value "bool" .plain), .none⟩,
    ⟨.binary .and 4 5, some (.value "bool" .plain), .none⟩,
    ⟨.unary .not 6, some (.value "bool" .plain), .none⟩,
    ⟨.binary .or 2 7, some (.value "bool" .plain), .none⟩,
    ⟨.unary .not 8, some (.value "bool" .plain), .none⟩,
    ⟨.binary .notEqual 0 1, some (.value "bool" .plain), .none⟩,
    ⟨.binary .and 10 6, some (.value "bool" .plain), .none⟩]
  stmts := #[⟨.empty, .none⟩, ⟨.ifElse 9 0 none, .none⟩, ⟨.whileLoop 11 0, .none⟩,
    ⟨.block [1, 2], .none⟩]
  root := 3

/-- The first test of the two. -/
def firstTest : Condition :=
  let read (name : String) (id : LocalId) : Expr :=
    .node ⟨.read ⟨⟨name, .named "C" [] .nullable, false⟩, id⟩, some (.named "C" [] .nullable), .none⟩
  let nothing : Expr := .node ⟨.literal .null, some (.null .plain), .none⟩
  let flag : Expr := .node ⟨.read ⟨⟨"b", .value "bool" .plain, false⟩, 2⟩,
    some (.value "bool" .plain), .none⟩
  .not (.connective false (.comparison true (read "x" 0) nothing)
    (.not (.connective true (.comparison false (read "y" 1) nothing) (.leaf flag))))

/-- A negated conjunction and a disjunction of negations have the same branches, writes included. -/
theorem twoTests_same_branches :
    twoTests.validate = .ok () ∧ twoTests.Reaches (.expr 9) ∧ twoTests.Reaches (.expr 11) ∧
    ∃ tree twin, twoTests.forest.expr? 9 = some tree ∧ twoTests.forest.expr? 11 = some twin ∧
      tree.Writes firstTest ∧ twin.Writes (firstTest.inward false) ∧
      ∀ context store session, (twin.meaning context).branches store session =
        (tree.meaning context).branches store session := by
  have valid : twoTests.validate = .ok () := rfl
  have reached : twoTests.Reaches (.expr 9) :=
    (Relation.ReflTransGen.single ⟨_, rfl, by decide⟩ : twoTests.Reaches (.stmt 1)).tail
      ⟨_, rfl, by decide⟩
  have reachedOther : twoTests.Reaches (.expr 11) :=
    (Relation.ReflTransGen.single ⟨_, rfl, by decide⟩ : twoTests.Reaches (.stmt 2)).tail
      ⟨_, rfl, by decide⟩
  obtain ⟨tree, twin, isTree, isTwin, same⟩ :=
    inward_same_branches twoTests valid reached reachedOther
  have writes : tree.Writes firstTest := by
    obtain rfl := Option.some.inj isTree
    exact ⟨_, ⟨_, _, rfl⟩, _, _, ⟨_, _, rfl⟩, ⟨_, _, rfl⟩, _, ⟨_, _, rfl⟩, _, _, ⟨_, _, rfl⟩,
      ⟨_, _, rfl⟩, rfl⟩
  have writesTwin : twin.Writes (firstTest.inward false) := by
    obtain rfl := Option.some.inj isTwin
    exact ⟨_, _, ⟨_, _, rfl⟩, ⟨_, _, rfl⟩, _, _, ⟨_, _, rfl⟩, ⟨_, _, rfl⟩, rfl⟩
  exact ⟨valid, reached, reachedOther, tree, twin, isTree, isTwin, writes, writesTwin,
    same firstTest writes writesTwin⟩

end Example

end Body
end NullFlow
