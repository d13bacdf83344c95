import NullFlow.Code.Symbol
/-!
The shapes of expressions. A shape leaves open what stands for variables, for subexpressions and
for the statements of lambdas. An arena fills it with numbers and a tree with subtrees.
-/

namespace NullFlow

structure Argument (Child : Type) where
  value : Child
  name? : Option String

/-- One entry of an object initializer: a value for a member, or entries for the members of the
value that the member has already. -/
inductive Initializer (Child : Type) where
  | value (member : Member) (value : Child)
  | nested (member : Member) (entries : List (Initializer Child))

inductive LambdaBody (Child Code : Type) where
  | expr (value : Child)
  | block (code : Code)

inductive ExprKind (Var Child Code : Type) where
  | read (source : Var)
  | this
  | literal (value : Literal)
  | defaultValue
  /-- A conversion to the type of the expression. -/
  | cast (operand : Child)
  /-- A member of the receiver, or a static one. -/
  | member (receiver? : Option Child) (member : Member)
  | index (receiver position : Child)
  | call (receiver? : Option Child) (method : Signature) (arguments : List (Argument Child))
  | create (constructor? : Option Signature) (arguments : List (Argument Child))
      (initializers : List (Initializer Child))
  /-- An array of the given element type, or of the type that its items have in common. -/
  | array (element? : Option Ty) (items : List Child)
  | conditional (condition whenTrue whenFalse : Child)
  | coalesce (left right : Child)
  | binary (operator : BinaryOp) (left right : Child)
  | unary (operator : UnaryOp) (operand : Child)
  | test (operand : Child) (pattern : Pattern)
  /-- The operand with the promise that it is not null. -/
  | suppress (operand : Child)
  | assign (target value : Child)
  | lambda (parameters : List LocalId) (body : LambdaBody Child Code)
  /-- Code that the front end could not resolve. -/
  | bad (children : List Child)

/-- An expression with the type that the front end gave it, if any. -/
structure Node (Var Child Code : Type) where
  kind : ExprKind Var Child Code
  ty? : Option Ty
  span : Span

mutual

/-- The values of an initializer entry, in source order. -/
def Initializer.values {Child : Type} : Initializer Child → List Child
  | .value _ value => [value]
  | .nested _ entries => initializerValues entries

def initializerValues {Child : Type} : List (Initializer Child) → List Child
  | [] => []
  | entry :: rest => entry.values ++ initializerValues rest

end

/-- The direct subexpressions in source order. The body of a lambda is none of them. -/
def ExprKind.children {Var Child Code : Type} : ExprKind Var Child Code → List Child
  | .read _ => []
  | .this => []
  | .literal _ => []
  | .defaultValue => []
  | .lambda .. => []
  | .cast operand => [operand]
  | .unary _ operand => [operand]
  | .test operand _ => [operand]
  | .suppress operand => [operand]
  | .member receiver? _ => receiver?.toList
  | .index receiver position => [receiver, position]
  | .call receiver? _ arguments => receiver?.toList ++ arguments.map Argument.value
  | .create _ arguments initializers =>
      arguments.map Argument.value ++ initializerValues initializers
  | .array _ items => items
  | .conditional condition whenTrue whenFalse => [condition, whenTrue, whenFalse]
  | .coalesce left right => [left, right]
  | .binary _ left right => [left, right]
  | .assign target value => [target, value]
  | .bad children => children

section Resolve

variable {Var Child Code Var' Child' Code' : Type}

def Argument.resolve (child : Child → Option Child') (argument : Argument Child) :
    Option (Argument Child') := do
  return ⟨← child argument.value, argument.name?⟩

mutual

def Initializer.resolve (child : Child → Option Child') :
    Initializer Child → Option (Initializer Child')
  | .value member value => do return .value member (← child value)
  | .nested member entries => do return .nested member (← resolveInitializers child entries)

def resolveInitializers (child : Child → Option Child') :
    List (Initializer Child) → Option (List (Initializer Child'))
  | [] => some []
  | entry :: rest => do return (← entry.resolve child) :: (← resolveInitializers child rest)

end

def LambdaBody.resolve (child : Child → Option Child') (code : Code → Option Code') :
    LambdaBody Child Code → Option (LambdaBody Child' Code')
  | .expr value => do return .expr (← child value)
  | .block body => do return .block (← code body)

/-- Applies a function to what an option holds, and fails if the function does. -/
def resolveOption (child : Child → Option Child') : Option Child → Option (Option Child')
  | none => some none
  | some value => (child value).map some

/-- Replaces what fills the shape. Fails if one of the functions does. -/
def ExprKind.resolve (var : Var → Option Var') (child : Child → Option Child')
    (code : Code → Option Code') : ExprKind Var Child Code → Option (ExprKind Var' Child' Code')
  | .read source => do return .read (← var source)
  | .this => some .this
  | .literal value => some (.literal value)
  | .defaultValue => some .defaultValue
  | .cast operand => do return .cast (← child operand)
  | .member receiver? selected => do return .member (← resolveOption child receiver?) selected
  | .index receiver position => do return .index (← child receiver) (← child position)
  | .call receiver? method arguments => do
      return .call (← resolveOption child receiver?) method
        (← arguments.mapM (Argument.resolve child))
  | .create constructor? arguments initializers => do
      return .create constructor? (← arguments.mapM (Argument.resolve child))
        (← resolveInitializers child initializers)
  | .array element? items => do return .array element? (← items.mapM child)
  | .conditional condition whenTrue whenFalse => do
      return .conditional (← child condition) (← child whenTrue) (← child whenFalse)
  | .coalesce left right => do return .coalesce (← child left) (← child right)
  | .binary operator left right => do return .binary operator (← child left) (← child right)
  | .unary operator operand => do return .unary operator (← child operand)
  | .test operand pattern => do return .test (← child operand) pattern
  | .suppress operand => do return .suppress (← child operand)
  | .assign target value => do return .assign (← child target) (← child value)
  | .lambda parameters body => do return .lambda parameters (← body.resolve child code)
  | .bad children => do return .bad (← children.mapM child)

def Node.resolve (var : Var → Option Var') (child : Child → Option Child')
    (code : Code → Option Code') (node : Node Var Child Code) :
    Option (Node Var' Child' Code') := do
  return ⟨← node.kind.resolve var child code, node.ty?, node.span⟩

end Resolve
end NullFlow
