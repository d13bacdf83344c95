import NullFlow.FlowGraph.Lowering
import NullFlow.FlowGraph.Order
import NullFlow.Proofs.Code.Maps
/-!
Maps of graphs. The lowering does not look at what stands for the simple statements and the
expressions: the graph of a mapped statement tree is the mapped graph of the tree. So the graph of a
folded tree has the blocks and the edges of the graph of the tree, with the results in place of the
expressions.
-/

namespace NullFlow

variable {Leaf Expr Leaf' Expr' : Type} (onLeaf : Leaf → Leaf') (onExpr : Expr → Expr')

def Step.map : Step Leaf Expr → Step Leaf' Expr'
  | .simple leaf => .simple (onLeaf leaf)
  | .update expr => .update (onExpr expr)

def Terminator.map : Terminator Expr → Terminator Expr'
  | .goto target => .goto target
  | .branch condition whenTrue whenFalse => .branch (onExpr condition) whenTrue whenFalse
  | .switch scrutinee targets => .switch (onExpr scrutinee) targets
  | .returnValue value? span => .returnValue (value?.map onExpr) span
  | .throwValue value? => .throwValue (value?.map onExpr)
  | .exit => .exit

def Block.map (block : Block Leaf Expr) : Block Leaf' Expr' :=
  ⟨block.steps.map (Step.map onLeaf onExpr), block.terminator.map onExpr⟩

def Draft.map (draft : Draft Leaf Expr) : Draft Leaf' Expr' :=
  ⟨draft.blocks.map (Block.map onLeaf onExpr), draft.current⟩

/-- A change of expressions leaves the edges of a terminator alone. -/
theorem Terminator.successors_map (terminator : Terminator Expr) :
    (terminator.map onExpr).successors = terminator.successors := by
  cases terminator <;> rfl

namespace Draft

variable (draft : Draft Leaf Expr)

@[simp] theorem next_map : (draft.map onLeaf onExpr).next = draft.next := by
  simp [next, map]

theorem map_reserve (count : Nat) :
    (draft.reserve count).map onLeaf onExpr = (draft.map onLeaf onExpr).reserve count := by
  simp [map, reserve, Block.map, Terminator.map]

/-- A change of one block can be made before the blocks are mapped or after that. -/
theorem map_modify {change : Block Leaf Expr → Block Leaf Expr}
    {changeMapped : Block Leaf' Expr' → Block Leaf' Expr'}
    (commutes : ∀ block : Block Leaf Expr,
      (change block).map onLeaf onExpr = changeMapped (block.map onLeaf onExpr))
    (blocks : Array (Block Leaf Expr)) (id : BlockId) :
    (blocks.modify id change).map (Block.map onLeaf onExpr) =
      (blocks.map (Block.map onLeaf onExpr)).modify id changeMapped := by
  apply Array.ext_getElem?
  intro index
  simp only [Array.getElem?_map, Array.getElem?_modify]
  split
  · cases blocks[index]? <;> simp [commutes]
  · rfl

/-- A block ends with the changed terminator. -/
theorem map_finish (terminator : Terminator Expr) :
    (draft.finish terminator).map onLeaf onExpr =
      (draft.map onLeaf onExpr).finish (terminator.map onExpr) := by
  simp only [map, finish, Draft.mk.injEq, and_true]
  exact map_modify onLeaf onExpr (fun _ => rfl) draft.blocks draft.current

/-- A changed step goes to the block where the step would go. -/
theorem map_push (step : Step Leaf Expr) :
    (draft.push step).map onLeaf onExpr =
      (draft.map onLeaf onExpr).push (step.map onLeaf onExpr) := by
  simp only [map, push, Draft.mk.injEq, and_true]
  exact map_modify onLeaf onExpr (fun block => by simp [Block.map]) draft.blocks draft.current

theorem map_switchTo (block : BlockId) :
    (draft.switchTo block).map onLeaf onExpr = (draft.map onLeaf onExpr).switchTo block := rfl

/-- A jump is changed in its terminator alone. -/
theorem map_jump (terminator : Terminator Expr) :
    (draft.jump terminator).map onLeaf onExpr =
      (draft.map onLeaf onExpr).jump (terminator.map onExpr) := by
  simp only [jump, map_switchTo, map_reserve, map_finish, next_map]

/-- The updates of a loop are changed one by one. -/
theorem map_updates (updates : List Expr) :
    (updates.foldl (fun draft expr => draft.push (.update expr)) draft).map onLeaf onExpr =
      (updates.map onExpr).foldl (fun draft expr => draft.push (.update expr))
        (draft.map onLeaf onExpr) := by
  induction updates generalizing draft with
  | nil => rfl
  | cons expr rest ih => rw [List.foldl_cons, ih, map_push, List.map_cons, List.foldl_cons, Step.map]

end Draft

section Lowering

/-- A change of expressions leaves the patterns of a switch alone. -/
theorem patterns_mapArms (arms : List (Arm (Stmt Leaf Expr))) :
    (Stmt.mapArms onLeaf onExpr arms).map Arm.pattern? = arms.map Arm.pattern? := by
  rw [Stmt.mapArms_eq_map, List.map_map]
  rfl

theorem length_mapArms (arms : List (Arm (Stmt Leaf Expr))) :
    (Stmt.mapArms onLeaf onExpr arms).length = arms.length := by
  rw [Stmt.mapArms_eq_map, List.length_map]

mutual

/-- A mapped statement is lowered to the map of what the statement is lowered to. -/
theorem lower_map : ∀ (stmt : Stmt Leaf Expr) (jumps? : Option Jumps) (draft : Draft Leaf Expr),
    lower jumps? (stmt.map onLeaf onExpr) (draft.map onLeaf onExpr) =
      (lower jumps? stmt draft).map onLeaf onExpr
  | .simple leaf, _, draft => by
      simp only [Stmt.map, lower, Draft.map_push, Step.map]
  | .empty, _, _ => by simp only [Stmt.map, lower]
  | .block stmts, jumps?, draft => by
      simp only [Stmt.map, lower, lowerAll_mapAll stmts]
  | .ifElse condition thenBranch none, jumps?, draft => by
      simp only [Stmt.map, lower, Draft.map_switchTo, Draft.map_finish, Draft.map_reserve,
        Draft.next_map, Terminator.map, ← lower_map thenBranch]
  | .ifElse condition thenBranch (some elseBranch), jumps?, draft => by
      simp only [Stmt.map, lower, Draft.map_switchTo, Draft.map_finish, Draft.map_reserve,
        Draft.next_map, Terminator.map, ← lower_map thenBranch, ← lower_map elseBranch]
  | .whileLoop condition body, _, draft => by
      simp only [Stmt.map, lower, Draft.map_switchTo, Draft.map_finish, Draft.map_reserve,
        Draft.next_map, Terminator.map, ← lower_map body]
  | .doWhile body condition, _, draft => by
      simp only [Stmt.map, lower, Draft.map_switchTo, Draft.map_finish, Draft.map_reserve,
        Draft.next_map, Terminator.map, ← lower_map body]
  | .forLoop init condition? updates body, jumps?, draft => by
      cases condition? <;>
        simp only [Stmt.map, lower, Option.map_none, Option.map_some, lowerAll_mapAll init,
          Draft.map_switchTo, Draft.map_finish, Draft.map_reserve, Draft.map_updates,
          Draft.next_map, Terminator.map, ← lower_map body]
  | .switch scrutinee arms, jumps?, draft => by
      simp only [Stmt.map, lower, patterns_mapArms, length_mapArms, Draft.map_switchTo,
        Draft.map_finish, Draft.map_reserve, Draft.next_map, Terminator.map,
        ← lowerArms_mapArms arms]
  | .breakOut, none, _ => by simp only [Stmt.map, lower, Draft.map_jump, Terminator.map]
  | .breakOut, some _, _ => by simp only [Stmt.map, lower, Draft.map_jump, Terminator.map]
  | .continueLoop, none, _ => by simp only [Stmt.map, lower, Draft.map_jump, Terminator.map]
  | .continueLoop, some _, _ => by simp only [Stmt.map, lower, Draft.map_jump, Terminator.map]
  | .returnValue _ _, _, _ => by simp only [Stmt.map, lower, Draft.map_jump, Terminator.map]
  | .throwValue _, _, _ => by simp only [Stmt.map, lower, Draft.map_jump, Terminator.map]
termination_by structural stmt => stmt

/-- Statements may be changed before they are lowered, or their draft after. -/
theorem lowerAll_mapAll : ∀ (stmts : List (Stmt Leaf Expr)) (jumps? : Option Jumps)
    (draft : Draft Leaf Expr),
    lowerAll jumps? (Stmt.mapAll onLeaf onExpr stmts) (draft.map onLeaf onExpr) =
      (lowerAll jumps? stmts draft).map onLeaf onExpr
  | [], _, _ => by simp only [Stmt.mapAll, lowerAll]
  | stmt :: rest, jumps?, draft => by
      simp only [Stmt.mapAll, lowerAll, lower_map stmt, lowerAll_mapAll rest]
termination_by structural stmts => stmts

/-- The arms of a switch may be changed before they are lowered, or their draft after. -/
theorem lowerArms_mapArms : ∀ (arms : List (Arm (Stmt Leaf Expr))) (jumps : Jumps)
    (block : BlockId) (draft : Draft Leaf Expr),
    lowerArms jumps block (Stmt.mapArms onLeaf onExpr arms) (draft.map onLeaf onExpr) =
      (lowerArms jumps block arms draft).map onLeaf onExpr
  | [], _, _, _ => by simp only [Stmt.mapArms, lowerArms]
  | ⟨_, body⟩ :: rest, jumps, block, draft => by
      simp only [Stmt.mapArms, lowerArms, ← lowerArms_mapArms rest, Draft.map_finish,
        Terminator.map, ← lowerAll_mapAll body, Draft.map_switchTo]
termination_by structural arms => arms

end

end Lowering

namespace FlowGraph

/-- Replaces what stands for the simple statements and the expressions of a graph. -/
def map (graph : FlowGraph Leaf Expr) : FlowGraph Leaf' Expr' :=
  ⟨graph.blocks.map (Block.map onLeaf onExpr)⟩

/-- A map keeps the edges. -/
theorem successors_map (graph : FlowGraph Leaf Expr) (id : BlockId) :
    (graph.map onLeaf onExpr).successors id = graph.successors id := by
  simp only [successors, map, Array.getElem?_map]
  cases graph.blocks[id]? with
  | none => rfl
  | some block => exact Terminator.successors_map onExpr block.terminator

/-- A change of expressions leaves the sources of edges alone. -/
theorem sources_map (graph : FlowGraph Leaf Expr) :
    (graph.map onLeaf onExpr).sources = graph.sources := by
  have incoming : (graph.map onLeaf onExpr).incoming = graph.incoming := by
    simp only [incoming, map, Array.toList_map, List.zipIdx_map, List.foldr_map, Array.size_map]
    refine congrArg (fun add => List.foldr add _ _) (funext fun entry => ?_)
    exact congrArg (fun edges => fun table => List.foldr _ table edges)
      (Terminator.successors_map onExpr entry.1.terminator)
  rw [sources, sources, incoming]

/-- The blocks of a mapped graph are visited in the order of the graph. -/
theorem reversePostorder_map (graph : FlowGraph Leaf Expr) :
    (graph.map onLeaf onExpr).reversePostorder = graph.reversePostorder := by
  have enter : (graph.map onLeaf onExpr).enter = graph.enter := by
    funext search id
    simp only [enter, successors_map]
  have advance : (graph.map onLeaf onExpr).advance = graph.advance := by
    funext search
    simp only [advance, enter]
  have explore : (graph.map onLeaf onExpr).explore = graph.explore := by
    funext steps search
    induction steps generalizing search with
    | zero => rfl
    | succ steps ih => rw [explore, explore, advance, ih]
  have edges : (graph.map onLeaf onExpr).edgeCount = graph.edgeCount := by
    simp only [edgeCount, map, Array.toList_map, List.flatMap_map]
    refine congrArg (fun edges => (List.flatMap edges _).length) (funext fun block => ?_)
    exact Terminator.successors_map onExpr block.terminator
  rw [reversePostorder, reversePostorder, enter, explore, edges, map, Array.size_map]

/-- The graph of a mapped statement tree is the mapped graph of the tree. -/
theorem ofStmt_map (root : Stmt Leaf Expr) :
    ofStmt (root.map onLeaf onExpr) = (ofStmt root).map onLeaf onExpr := by
  have start : (Draft.start : Draft Leaf' Expr') = Draft.start.map onLeaf onExpr := by
    simp [Draft.start, Draft.map, Block.map, Terminator.map]
  have finished : (lower none (root.map onLeaf onExpr) .start).finish .exit =
      ((lower none root .start).finish .exit).map onLeaf onExpr := by
    rw [start, lower_map, Draft.map_finish, Terminator.map]
  rw [ofStmt, finished]
  rfl

variable {Result : Type} (rule : NullFlow.Expr.Results Result → Result)

/-- The graph of a folded tree is the graph of the tree with results. -/
theorem blocks_ofStmt_fold (code : Code) (id : Nat) :
    (ofStmt (foldStmt rule code)).blocks[id]? =
      (ofStmt code).blocks[id]?.map (Block.map (foldSimple rule) (NullFlow.Expr.fold rule)) := by
  rw [foldStmt_eq_map, ofStmt_map]
  exact Array.getElem?_map

end FlowGraph

end NullFlow
