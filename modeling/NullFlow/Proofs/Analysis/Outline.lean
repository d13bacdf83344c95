import NullFlow.Analysis.Method
import NullFlow.Proofs.Code.Contents
import NullFlow.Proofs.Store.Layout
import NullFlow.Proofs.Types.Flat
/-!
Flat code. All places that flat code uses have flat types, and they are declared as a layout says.
Whether code is flat is read off its text.
-/

namespace NullFlow

namespace Layout

variable (layout : Layout)

def coversVariable (source : Variable) : Bool :=
  source.ty.isFlat && layout.localState source.id == source.ty.declaredState

/-- A covered member has the same type under every receiver. -/
def coversMember (member : Member) : Bool :=
  member.ty.isFlat && member.ty.isClosed &&
    layout.memberState member.name == member.ty.declaredState

variable {layout}

/-- A covered variable is declared as the layout says. -/
theorem state_of_variable {source : Variable} (covered : layout.coversVariable source = true) :
    layout.stateOf (.localVar source.id) = some source.ty.declaredState := by
  rw [coversVariable, Bool.and_eq_true, beq_iff_eq] at covered
  exact congrArg some covered.2

/-- A covered member has a flat closed type and is declared as the layout says. -/
theorem state_of_member {member : Member} (covered : layout.coversMember member = true) :
    member.ty.isFlat = true ∧ member.ty.isClosed = true ∧
      layout.memberState member.name = member.ty.declaredState := by
  simpa only [coversMember, Bool.and_eq_true, beq_iff_eq, and_assoc] using covered

/-- A path of members in the states of the layout goes on with a covered member. -/
theorem follows_snoc {path : List (String × FlowState)} {member : Member}
    (follows : ∀ step ∈ path, layout.memberState step.1 = step.2)
    (covered : layout.coversMember member = true) :
    ∀ step ∈ path ++ [(member.name, member.ty.declaredState)],
      layout.memberState step.1 = step.2 := by
  intro step inPath
  rcases List.mem_append.mp inPath with earlier | last
  · exact follows step earlier
  · obtain rfl := List.mem_singleton.mp last
    exact (state_of_member covered).2.2

end Layout

/-- What the text of an expression tells of the places that it uses. -/
structure Outline where
  /-- All places inside the expression are flat and covered by the layout. -/
  flat : Bool
  /-- The value lies in a slot wherever control reaches it. -/
  tracked : Bool
  /-- An assignment to the expression writes to one slot at most. -/
  settled : Bool

namespace Outline

/-- The front end gave an expression no type with inner positions. -/
def flatType (ty? : Option Ty) : Bool := ty?.all Ty.isFlat

def flatArguments (arguments : List (Argument (Thunk Outline))) : Bool :=
  arguments.all fun argument => argument.value.get.flat

section Rules

variable (layout : Layout)

mutual

def flatInitializer : Initializer (Thunk Outline) → Bool
  | .value member part => layout.coversMember member && part.get.flat
  | .nested member entries => layout.coversMember member && flatInitializers entries

def flatInitializers : List (Initializer (Thunk Outline)) → Bool
  | [] => true
  | entry :: rest => flatInitializer entry && flatInitializers rest

end

def coversLeaf : Simple Outline → Bool
  | .declare target _ => layout.coversVariable target
  | .evaluate _ => true

def flatCode (code : Stmt (Simple Outline) Outline) : Bool :=
  code.leaves.all (coversLeaf layout) && code.allExprs.all flat

/-- The parts of an expression are flat, and so is what the expression refers to. -/
def flatKind : ExprKind Variable (Thunk Outline) (Thunk (Stmt (Simple Outline) Outline)) → Bool
  | .read source => layout.coversVariable source
  | .this => true
  | .literal _ => true
  | .defaultValue => true
  | .cast operand => operand.get.flat
  | .member none member => member.ty.isFlat
  | .member (some receiver) member => receiver.get.flat && layout.coversMember member
  | .index receiver position => receiver.get.flat && position.get.flat
  | .call receiver? method arguments =>
      receiver?.all (fun receiver => receiver.get.flat) && flatArguments arguments &&
        method.returnType.isFlat && method.returnType.isClosed
  | .create _ arguments initializers =>
      flatArguments arguments && flatInitializers layout initializers
  | .array .. => false
  | .conditional condition whenTrue whenFalse =>
      condition.get.flat && whenTrue.get.flat && whenFalse.get.flat
  | .coalesce left right => left.get.flat && right.get.flat
  | .binary _ left right => left.get.flat && right.get.flat
  | .unary _ operand => operand.get.flat
  | .test operand _ => operand.get.flat
  | .suppress operand => operand.get.flat
  | .assign target value => target.get.flat && target.get.settled && value.get.flat
  | .lambda _ (.expr value) => value.get.flat
  | .lambda _ (.block code) => flatCode layout code.get
  | .bad children => children.all fun child => child.get.flat

end Rules

def trackedKind {Code : Type} : ExprKind Variable (Thunk Outline) Code → Bool
  | .read _ => true
  | .this => true
  | .cast operand => operand.get.tracked
  | .member (some receiver) _ => receiver.get.tracked
  | .suppress operand => operand.get.tracked
  | .assign target _ => target.get.tracked
  | _ => false

/-- A member of a receiver that is not tracked may be any member of its name. -/
def settledKind {Code : Type} : ExprKind Variable (Thunk Outline) Code → Bool
  | .member (some receiver) _ => receiver.get.tracked
  | _ => true

/-- The outline of an expression from the outlines of its parts. Lenient code may write to members
of receivers that are not tracked. -/
def ofNode (layout : Layout) (lenient : Bool) (node : Expr.Results Outline) : Outline where
  flat := flatType node.ty? && flatKind layout node.kind
  tracked := trackedKind node.kind
  settled := lenient || settledKind node.kind

end Outline

section Flat

variable (layout : Layout) (lenient : Bool)

def Expr.outline (expr : Expr) : Outline := expr.fold (Outline.ofNode layout lenient)

def Code.isFlat (code : Code) : Bool :=
  Outline.flatCode layout (foldStmt (Outline.ofNode layout lenient) code)

/-- The code of the method is flat, and so is the type of `this`. -/
def Method.isFlat (method : Method) : Bool :=
  method.thisType?.all Ty.isFlat && method.code.isFlat layout lenient

end Flat
end NullFlow
