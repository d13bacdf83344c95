import NullFlow.Ty.Basic
/-!
What the expressions of a method body refer to: places in source files, variables, members and
signatures, all resolved by the front end.
-/

namespace NullFlow

abbrev ExprId := Nat
abbrev StmtId := Nat
abbrev LocalId := Nat

/-- A range in a source file. Lines and columns count from one. -/
structure Span where
  file : String
  startLine : Nat
  startColumn : Nat
  endLine : Nat
  endColumn : Nat
deriving DecidableEq

/-- The range of a node that the front end gave none. -/
def Span.none : Span := ⟨"", 0, 0, 0, 0⟩

/-- The range of one position. -/
def Span.point (file : String) (line column : Nat) : Span := ⟨file, line, column, line, column⟩

/-- The file and position at which the range starts. -/
def Span.startText (span : Span) : String := s!"{span.file}:{span.startLine}:{span.startColumn}"

/-- A declared parameter or local. An implicit one takes its type from its first value and accepts
null whatever the type says. -/
structure Local where
  name : String
  ty : Ty
  implicit : Bool

/-- A local together with its position among the locals of its body. -/
structure Variable extends Local where
  id : LocalId

/-- A field or property. The type may mention the type parameters of the declaring class. -/
structure Member where
  name : String
  owner? : Option String
  ty : Ty

structure Parameter where
  name : String
  ty : Ty

/-- A method or constructor. Reports show its `display` text. -/
structure Signature where
  name : String
  display : String
  owner? : Option String
  typeParameters : List String
  parameters : List Parameter
  returnType : Ty

/-- The parameter that an argument binds to, by name if it has one and by position otherwise. -/
def Signature.parameter? (signature : Signature) (position : Nat) :
    Option String → Option Parameter
  | some name => signature.parameters.find? fun parameter => parameter.name == name
  | none => signature.parameters[position]?

inductive Literal where
  | null
  | bool (value : Bool)
  | number (text : String)
  | string (text : String)
deriving DecidableEq

inductive BinaryOp where
  | equal
  | notEqual
  | and
  | or
  /-- Arithmetic, order and concatenation. -/
  | other
deriving DecidableEq

inductive UnaryOp where
  | not
  | other
deriving DecidableEq

/-- The pattern of a type test or of an arm of a switch. -/
inductive Pattern where
  | null
  | type (ty : Ty)

def Pattern.isNull : Pattern → Bool
  | null => true
  | type _ => false

end NullFlow
