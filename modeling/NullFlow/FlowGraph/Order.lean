import NullFlow.FlowGraph.Basic
/-!
The order in which the analysis visits blocks: a block comes before the blocks that it leads to,
unless a loop leads back.
-/

namespace NullFlow

/-- A depth-first search. -/
structure Search where
  /-- Whether the search has met a block, by its number. -/
  met : Array Bool
  /-- The blocks around the current point, the innermost first, with the targets still to try. -/
  path : List (BlockId × List BlockId)
  /-- The blocks that the search has left, the last one first. -/
  order : List BlockId

namespace FlowGraph

variable {Leaf Expr : Type}

/-- Enters a block that lies in the graph and was not met. -/
def enter (graph : FlowGraph Leaf Expr) (search : Search) (id : BlockId) : Search :=
  if search.met.getD id true then search
  else
    { search with
      met := search.met.setIfInBounds id true
      path := (id, (graph.successors id).map Prod.fst) :: search.path }

/-- Tries the next target of the innermost block, or leaves the block. -/
def advance (graph : FlowGraph Leaf Expr) (search : Search) : Search :=
  match search.path with
  | [] => search
  | (id, []) :: around => { search with path := around, order := id :: search.order }
  | (id, target :: targets) :: around =>
      graph.enter { search with path := (id, targets) :: around } target

/-- Advances so many times. -/
def explore (graph : FlowGraph Leaf Expr) : Nat → Search → Search
  | 0, search => search
  | steps + 1, search => graph.explore steps (graph.advance search)

/-- The number of edges. -/
def edgeCount (graph : FlowGraph Leaf Expr) : Nat :=
  (graph.blocks.toList.flatMap fun block => block.terminator.successors).length

/-- The blocks reachable from the entry, in reverse order of leaving them. The search tries every
edge at most once and leaves every block at most once. -/
def reversePostorder (graph : FlowGraph Leaf Expr) : List BlockId :=
  let start := graph.enter ⟨Array.replicate graph.blocks.size false, [], []⟩ entry
  (graph.explore (graph.edgeCount + graph.blocks.size) start).order

end FlowGraph
end NullFlow
