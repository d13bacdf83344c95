import NullFlow.Code.Stmt
/-!
Control-flow graphs. A block runs its steps in order and then leaves by its terminator. Blocks are
numbered from zero, and the graph is entered at block zero.
-/

namespace NullFlow

abbrev BlockId := Nat

inductive Step (Leaf Expr : Type) where
  | simple (leaf : Leaf)
  /-- An update of a loop. -/
  | update (expr : Expr)

/-- A way out of a switch. It has no pattern if it is taken when no pattern fits. -/
structure SwitchTarget where
  pattern? : Option Pattern
  target : BlockId

inductive Terminator (Expr : Type) where
  | goto (target : BlockId)
  | branch (condition : Expr) (whenTrue whenFalse : BlockId)
  | switch (scrutinee : Expr) (targets : List SwitchTarget)
  | returnValue (value? : Option Expr) (span : Span)
  | throwValue (value? : Option Expr)
  /-- The code ends here without a jump. -/
  | exit

structure Block (Leaf Expr : Type) where
  steps : List (Step Leaf Expr)
  terminator : Terminator Expr

structure FlowGraph (Leaf Expr : Type) where
  blocks : Array (Block Leaf Expr)

/-- What makes control take an edge. -/
inductive EdgeKind where
  | always
  | whenTrue
  | whenFalse
  | arm (index : Nat)
deriving DecidableEq

/-- The edges out of a terminator in source order. -/
def Terminator.successors {Expr : Type} : Terminator Expr → List (BlockId × EdgeKind)
  | goto target => [(target, .always)]
  | branch _ whenTrue whenFalse => [(whenTrue, .whenTrue), (whenFalse, .whenFalse)]
  | switch _ targets => targets.zipIdx.map fun (arm, index) => (arm.target, .arm index)
  | returnValue .. => []
  | throwValue _ => []
  | exit => []

namespace FlowGraph

variable {Leaf Expr : Type}

/-- The block at which the code starts. -/
def entry : BlockId := 0

/-- The edges out of a block. -/
def successors (graph : FlowGraph Leaf Expr) (id : BlockId) : List (BlockId × EdgeKind) :=
  match graph.blocks[id]? with
  | some block => block.terminator.successors
  | none => []

/-- The edges into every block, by the number of the block that they leave. -/
def incoming (graph : FlowGraph Leaf Expr) : Array (List (BlockId × EdgeKind)) :=
  graph.blocks.toList.zipIdx.foldr
    (fun (block, source) table => block.terminator.successors.foldr
      (fun (target, kind) table => table.modify target fun edges => (source, kind) :: edges) table)
    (Array.replicate graph.blocks.size [])

/-- The blocks from which edges lead into every block. -/
def sources (graph : FlowGraph Leaf Expr) : Array (List BlockId) :=
  graph.incoming.map fun edges => (edges.map Prod.fst).eraseDups

end FlowGraph
end NullFlow
