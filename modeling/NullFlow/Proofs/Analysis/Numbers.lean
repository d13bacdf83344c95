import NullFlow.Analysis.Rules
import NullFlow.Proofs.FlowGraph.Maps
/-!
The analysis of graphs of numbers. A graph that was lowered from numbers is solved as it is, and its
numbers are looked up one by one when control comes to them. The solver follows the edges and never
compares numbers, so this is the analysis of the graph with the meanings in place of the numbers.
-/

namespace NullFlow

/-- What the numbers of simple statements and of expressions stand for. -/
structure Lookup where
  simple : StmtId → Simple Meaning
  expr : ExprId → Meaning

/-- Code of which every simple statement and every expression is known by its number. -/
abbrev NumberGraph := FlowGraph StmtId ExprId

namespace Lookup

variable (lookup : Lookup) (context : Context)

def step (store : Store) : Step StmtId ExprId → Analysis Store
  | .simple id => Step.run context (.simple (lookup.simple id)) store
  | .update id => Step.run context (.update (lookup.expr id)) store

/-- Runs a block of numbers. -/
def transfer (block : Block StmtId ExprId) (store : Store) : Analysis Outflow := do
  let store ← block.steps.foldlM (lookup.step context) store
  (block.terminator.map lookup.expr).run context store

variable (graph : NumberGraph) (start : Store)

/-- Brings the entry of a block up to date and runs the block. -/
def visit (sources : Array (List BlockId)) (sweep : Sweep) (id : BlockId) : Analysis Sweep :=
  match graph.blocks[id]? with
  | none => return sweep
  | some block => do
      let table ← Analysis.slots
      let inflow := sweep.inflow table (sources.getD id []) id
      let entry := if id = FlowGraph.entry then inflow.join table start else inflow
      let changed := sweep.changed || !Store.equivalent table entry (sweep.flow id).entry
      let outflow ← lookup.transfer context block entry
      return ⟨sweep.flows.setIfInBounds id ⟨entry, outflow⟩, changed⟩

/-- Passes over the blocks until nothing changes, or the passes are used up, or the analysis has to
stop. -/
def iterate (sources : Array (List BlockId)) (order : List BlockId) (later passes : Nat)
    (before : Sweep) : Analysis (Option Solution) := do
  if ← Analysis.mustStop context then return none
  Analysis.clearReturns
  let now ← order.foldlM (lookup.visit context graph start sources) { before with changed := false }
  if !now.changed then return some ⟨now.entries, passes + 1, true⟩
  match later with
  | 0 =>
      let unstable := Sweep.unstable (← Analysis.slots) now before
      return some ⟨now.entries.map fun store => store.widen unstable, passes + 1, false⟩
  | later + 1 => iterate sources order later (passes + 1) now

def solve : Analysis (Option Solution) :=
  lookup.iterate context graph start graph.sources graph.reversePostorder
    (context.options.maxIterations - 1) 0 (.start graph.blocks.size)

/-- Solves a graph of numbers in silence and then reports on it. -/
def analyze : Analysis (Option Solution) := do
  let wasMuted ← Analysis.mute true
  let solution? ← lookup.solve context graph start
  let _ ← Analysis.mute wasMuted
  match solution? with
  | none => return none
  | some solution => do
      Analysis.clearReturns
      graph.blocks.toList.zipIdx.forM fun (block, id) => do
        if (solution.entry id).isReachable then
          let _ ← lookup.transfer context block (solution.entry id)
      return some solution

/-- Analyzes the body of a lambda against the delegate that is expected of it. -/
def analyzeLambda (delegate? : Option Ty) : Analysis (Option Value) := do
  let expected? := (delegate?.bind Ty.result?).filter fun ty => !ty.isVoid
  Analysis.pushFrame expected?
  if (← lookup.analyze context graph Store.entry).isNone then Analysis.cancel
  let frame ← Analysis.popFrame
  if frame.returns.isEmpty then return none
  let state := FlowState.joinAll (frame.returns.map Returned.state)
  let ty? := context.classes.bestCommon? (frame.returns.filterMap Returned.ty?)
  return some (.loose state (ty?.map (Ty.withState state)))

/-- The meaning of a lambda with the numbers of its body. -/
def lambda (span : Span) (ty? : Option Ty) : Meaning :=
  let analyze : Option Ty → Analysis (Option Value) := lookup.analyzeLambda context graph
  let rule : Store → Analysis (Value × Store) := fun store => do
    let _ ← analyze ty?
    return (.loose .notNull ty?, store)
  { Meaning.ofValue span ty? rule with lambda? := some analyze }

/-- The meanings that a graph of numbers stands for. -/
def resolve : MeaningGraph := graph.map lookup.simple lookup.expr

section Simulation

variable {lookup context graph start}

/-- A block of numbers does what its meanings do. -/
theorem transfer_eq (block : Block StmtId ExprId) :
    lookup.transfer context block =
      (block.map lookup.simple lookup.expr).transfer context := by
  funext store
  have steps : (block.steps.map (Step.map lookup.simple lookup.expr)).foldlM
      (fun store step => step.run context store) store =
        block.steps.foldlM (lookup.step context) store := by
    rw [List.foldlM_map]
    refine congrArg (fun step => block.steps.foldlM step store) (funext fun store => ?_)
    funext step
    cases step <;> rfl
  rw [transfer, Block.transfer, Block.map, steps]

/-- A visit that looks up its block visits the block. -/
theorem visit_eq (sources : Array (List BlockId)) :
    lookup.visit context graph start sources =
      Sweep.visit context (lookup.resolve graph) start sources := by
  funext sweep id
  have found : (lookup.resolve graph).blocks[id]? =
      graph.blocks[id]?.map (Block.map lookup.simple lookup.expr) := Array.getElem?_map
  rw [visit, Sweep.visit, found]
  cases graph.blocks[id]? with
  | none => rfl
  | some block => simp only [Option.map_some, transfer_eq]

/-- The passes over the numbers are the passes over the meanings. -/
theorem iterate_eq (sources : Array (List BlockId)) (order : List BlockId) (later passes : Nat)
    (before : Sweep) :
    lookup.iterate context graph start sources order later passes before =
      Sweep.iterate context (lookup.resolve graph) start sources order later passes before := by
  induction later generalizing passes before with
  | zero => rw [iterate, Sweep.iterate, visit_eq]
  | succ later ih =>
      rw [iterate, Sweep.iterate, visit_eq]
      simp only [ih]

/-- Solving by numbers is solving. -/
theorem solve_eq : lookup.solve context graph start =
    (lookup.resolve graph).solve context start := by
  rw [solve, FlowGraph.solve, iterate_eq, resolve, FlowGraph.sources_map,
    FlowGraph.reversePostorder_map, FlowGraph.map, Array.size_map]

/-- Solving and reporting by numbers is solving and reporting. -/
theorem analyze_eq : lookup.analyze context graph start =
    (lookup.resolve graph).analyze context start := by
  rw [analyze, FlowGraph.analyze, solve_eq]
  refine bind_congr fun wasMuted => bind_congr fun solution? => bind_congr fun _ => ?_
  cases solution? with
  | none => rfl
  | some solution =>
      refine bind_congr fun _ => congrArg (· >>= fun _ => pure (some solution)) ?_
      rw [resolve, FlowGraph.map, Array.toList_map, List.zipIdx_map]
      refine (List.forM_map.trans (congrArg (forM _) (funext fun visited => ?_))).symm
      obtain ⟨block, id⟩ := visited
      simp only [transfer_eq]
      rfl

/-- The analysis of a lambda by its numbers is that of its meanings. -/
theorem analyzeLambda_eq (delegate? : Option Ty) :
    lookup.analyzeLambda context graph delegate? =
      (lookup.resolve graph).analyzeLambda context delegate? := by
  rw [analyzeLambda, FlowGraph.analyzeLambda, analyze_eq]

/-- A lambda means the same by its numbers and by the meanings that they stand for. -/
theorem lambda_eq (span : Span) (ty? : Option Ty) :
    lookup.lambda context graph span ty? =
      lambdaMeaning context span ty? (.mk fun _ => lookup.resolve graph) := by
  have same : lookup.analyzeLambda context graph =
      fun delegate? => (lookup.resolve graph).analyzeLambda context delegate? :=
    funext analyzeLambda_eq
  rw [lambda, same]
  rfl

end Simulation

end Lookup

end NullFlow
