import NullFlow.Body.Basic
/-!
Drafts: bodies under construction. Every new node gets the next free number of its arena and the
current position of the cursor.
-/

namespace NullFlow

/-- A body that still grows, with the position that the next node gets. -/
structure BodyDraft where
  name : String
  file : String
  line : Nat
  column : Nat
  thisType? : Option Ty
  returnType : Ty
  parameters : List LocalId
  locals : Array Local
  exprs : Array ArenaExpr
  stmts : Array Statement

namespace BodyDraft

/-- The draft of a method without code. The cursor stands at the start of the file. -/
def start (name file : String) (thisType? : Option Ty) (returnType : Ty) : BodyDraft :=
  ⟨name, file, 1, 1, thisType?, returnType, [], #[], #[], #[]⟩

/-- The range that the next node gets. -/
def span (draft : BodyDraft) : Span := .point draft.file draft.line draft.column

/-- Changes the file of the nodes that follow. -/
def setFile (file : String) : StateM BodyDraft Unit := modify fun draft => { draft with file }

def setReturnType (returnType : Ty) : StateM BodyDraft Unit :=
  modify fun draft => { draft with returnType }

/-- Makes the method one of an instance of the type. -/
def setThisType (thisType : Ty) : StateM BodyDraft Unit :=
  modify fun draft => { draft with thisType? := some thisType }

/-- Moves the cursor. -/
def moveTo (line column : Nat) : StateM BodyDraft Unit :=
  modify fun draft => { draft with line, column }

/-- Adds a local. -/
def declare (declared : Local) : StateM BodyDraft LocalId := fun draft =>
  (draft.locals.size, { draft with locals := draft.locals.push declared })

/-- Adds a parameter, which is a local with an explicit type. -/
def parameter (name : String) (ty : Ty) : StateM BodyDraft LocalId := do
  let id ← declare ⟨name, ty, false⟩
  modify fun draft => { draft with parameters := draft.parameters ++ [id] }
  return id

/-- Adds an expression with the type that the caller gives it. -/
def exprOf (kind : ExprKind LocalId ExprId StmtId) (ty? : Option Ty) :
    StateM BodyDraft ExprId := fun draft =>
  (draft.exprs.size, { draft with exprs := draft.exprs.push ⟨kind, ty?, draft.span⟩ })

/-- The type of an expression of the draft. -/
def ty? (draft : BodyDraft) (id : ExprId) : Option Ty := draft.exprs[id]?.bind Node.ty?

/-- The type that follows from the parts of an expression. -/
def derivedTy? (draft : BodyDraft) : ExprKind LocalId ExprId StmtId → Option Ty
  | .read source => draft.locals[source]?.map Local.ty
  | .this => draft.thisType?
  | .literal .null => some (.null .plain)
  | .literal (.bool _) => some (.value "bool" .plain)
  | .literal (.number _) => some (.value "int" .plain)
  | .literal (.string _) => some (.named "string" [] .plain)
  | .member _ member => some member.ty
  | .index receiver _ => (draft.ty? receiver).bind Ty.element?
  | .call _ method _ => some method.returnType
  | .array element? _ => element?.map fun element => .array element .plain
  | .conditional _ whenTrue whenFalse => (draft.ty? whenTrue).or (draft.ty? whenFalse)
  | .coalesce left _ => draft.ty? left
  | .binary .. => some (.value "bool" .plain)
  | .unary .not _ => some (.value "bool" .plain)
  | .test .. => some (.value "bool" .plain)
  | .suppress operand => draft.ty? operand
  | .assign target _ => draft.ty? target
  | .defaultValue => none
  | .cast _ => none
  | .create .. => none
  | .unary .other _ => none
  | .lambda .. => none
  | .bad _ => none

/-- Adds an expression with the type that follows from its parts. -/
def expr (kind : ExprKind LocalId ExprId StmtId) : StateM BodyDraft ExprId := fun draft =>
  exprOf kind (draft.derivedTy? kind) draft

/-- Adds a statement. -/
def stmt (kind : StmtKind) : StateM BodyDraft StmtId := fun draft =>
  (draft.stmts.size, { draft with stmts := draft.stmts.push ⟨kind, draft.span⟩ })

/-- Ends the draft. The statements become the block at the root. -/
def finish (draft : BodyDraft) (stmts : List StmtId) : Body :=
  let (root, draft) := stmt (.block stmts) draft
  {
    name := draft.name
    span? := some (.point draft.file 1 1)
    thisType? := draft.thisType?
    parameters := draft.parameters
    returnType := draft.returnType
    locals := draft.locals
    exprs := draft.exprs
    stmts := draft.stmts
    root }

end BodyDraft
end NullFlow
