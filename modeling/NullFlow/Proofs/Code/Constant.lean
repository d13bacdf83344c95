import NullFlow.Code.Expr
/-!
The outcome that the text of a condition decides. Boolean literals decide it, the connectives
combine what their operands decide, and of every other expression nothing is known.
-/

namespace NullFlow

/-- The outcome of a conjunction. One side that does not hold is enough to decide it. -/
def decidedAnd : Option Bool → Option Bool → Option Bool
  | some true, right => right
  | some false, _ => some false
  | none, some false => some false
  | none, _ => none

/-- The outcome of a disjunction. One side that holds is enough to decide it. -/
def decidedOr : Option Bool → Option Bool → Option Bool
  | some false, right => right
  | some true, _ => some true
  | none, some true => some true
  | none, _ => none

section Connectives

variable {left right : Option Bool}

/-- A conjunction is decided to hold if both operands are. -/
theorem decidedAnd_eq_true : decidedAnd left right = some true ↔
    left = some true ∧ right = some true := by
  rcases left with _ | _ | _ <;> rcases right with _ | _ | _ <;> decide

/-- A conjunction is decided to fail if either operand is. -/
theorem decidedAnd_eq_false : decidedAnd left right = some false ↔
    left = some false ∨ right = some false := by
  rcases left with _ | _ | _ <;> rcases right with _ | _ | _ <;> decide

/-- A disjunction is decided to hold if either operand is. -/
theorem decidedOr_eq_true : decidedOr left right = some true ↔
    left = some true ∨ right = some true := by
  rcases left with _ | _ | _ <;> rcases right with _ | _ | _ <;> decide

/-- A disjunction is decided to fail if both operands are. -/
theorem decidedOr_eq_false : decidedOr left right = some false ↔
    left = some false ∧ right = some false := by
  rcases left with _ | _ | _ <;> rcases right with _ | _ | _ <;> decide

theorem map_not_eq (value : Bool) : left.map not = some value ↔ left = some !value := by
  rcases left with _ | _ | _ <;> cases value <;> decide

end Connectives

/-- The outcome that a node decides, from the outcomes that its parts decide. -/
def Expr.decidedOf (node : Expr.Results (Option Bool)) : Option Bool :=
  match node.kind with
  | .literal (.bool value) => some value
  | .unary .not operand => operand.get.map not
  | .binary .and left right => decidedAnd left.get right.get
  | .binary .or left right => decidedOr left.get right.get
  | _ => none

/-- The outcome that the text of a condition decides. -/
def Expr.decided? (condition : Expr) : Option Bool := condition.fold Expr.decidedOf

end NullFlow
