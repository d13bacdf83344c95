import NullFlow.Body.Basic
/-!
The check that a body can be read as a finite tree: its numbers point into their arenas, no node
contains itself, and nodes nest to a bounded depth.
-/

namespace NullFlow

/-- The deepest nesting of nodes that a front end may hand over. -/
def maxNesting : Nat := 256

/-- What makes a body unfit for analysis. -/
inductive Defect where
  | outOfRange (reference : Reference)
  | containsItself (node : NodeId)
  | tooDeep (node : NodeId)
deriving DecidableEq

def NodeId.text : NodeId → String
  | expr id => s!"expression #{id}"
  | stmt id => s!"statement #{id}"

def Reference.text : Reference → String
  | expr id => s!"expression #{id}"
  | stmt id => s!"statement #{id}"
  | localVar id => s!"local #{id}"

def Defect.message : Defect → String
  | outOfRange reference => s!"{reference.text} out of range"
  | containsItself node => s!"{node.text} contains itself"
  | tooDeep node => s!"{node.text} is nested more than {maxNesting} levels deep"

namespace Body

/-- The numbers that an expression stores. The expression that a lambda returns is not among them:
the walk from the root meets it. -/
def exprReferences (expr : ArenaExpr) : List Reference :=
  expr.kind.children.map .expr ++
    match expr.kind with
    | .read source => [.localVar source]
    | .lambda parameters (.expr _) => parameters.map .localVar
    | .lambda parameters (.block code) => parameters.map .localVar ++ [.stmt code]
    | _ => []

/-- The numbers that a statement stores. -/
def stmtReferences (stmt : Statement) : List Reference :=
  stmt.kind.childStmts.map .stmt ++ stmt.kind.childExprs.map .expr ++
    match stmt.kind with
    | .declare target _ => [.localVar target]
    | _ => []

/-- The numbers of a body in the order in which they are checked. -/
def references (body : Body) : List Reference :=
  .stmt body.root :: body.parameters.map .localVar ++
    body.exprs.toList.flatMap exprReferences ++ body.stmts.toList.flatMap stmtReferences

/-- Walks through a node and everything inside it, the last child first. `path` holds the nodes
around it and `finished` the nodes that need no second walk. The result adds to the finished
ones. -/
def walk (body : Body) :
    Nat → List NodeId → List NodeId → NodeId → Except Defect (List NodeId)
  | levels, path, finished, node =>
      if finished.contains node then .ok finished
      else if path.contains node then .error (.containsItself node)
      else
        match levels with
        | 0 => .error (.tooDeep node)
        | levels + 1 =>
            match body.children? node, node with
            | none, .expr id => .error (.outOfRange (.expr id))
            | none, .stmt id => .error (.outOfRange (.stmt id))
            | some children, _ => do
                let finished ← children.reverse.foldlM
                  (fun finished child => body.walk levels (node :: path) finished child) finished
                return node :: finished

/-- Finds the first defect of a body. -/
def validate (body : Body) : Except Defect Unit :=
  match body.references.find? fun reference => !body.covers reference with
  | some reference => .error (.outOfRange reference)
  | none => (body.walk maxNesting [] [] (.stmt body.root)).map fun _ => ()

end Body
end NullFlow
