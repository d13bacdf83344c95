import NullFlow.Proofs.Analysis.Equations
import NullFlow.Proofs.Runtime.Blocks
/-!
A converged solution covers every execution of the code. Whenever control enters a block, the entry
of the block covers the memory. So a null receiver that stops an execution is reported when the block
is visited for the last time.
-/

namespace NullFlow

variable {layout : Layout} {context : Context} {code : Code} {memory later : Memory}

/-- The analysis attends all statements and expressions of the code. -/
def Code.Sound (layout : Layout) (context : Context) (code : Code) : Prop :=
  Code.MadeOf (fun target => layout.coversVariable target = true) (Expr.Sound layout context) code

/-- Every block of sound code has sound parts. -/
theorem Code.Sound.block (sound : Code.Sound layout context code) {id : BlockId}
    {block : Block (Simple Expr) Expr} (found : (FlowGraph.ofStmt code).blocks[id]? = some block) :
    block.Over (Simple.Sound layout context) (Expr.Sound layout context) :=
  FlowGraph.ofStmt_over sound.leaves sound.exprs block (Array.mem_of_getElem? found)

/-- The analysis has a meaning for every block that a run can reach. -/
theorem block_graph (context : Context) {id : BlockId} {block : Block (Simple Expr) Expr}
    (found : (FlowGraph.ofStmt code).blocks[id]? = some block) :
    (code.graph context).blocks[id]? = some (block.meaning context) := by
  rw [Code.graph, FlowGraph.blocks_ofStmt_fold, found]
  rfl

/-- Control goes from block to block along the edges of the graph that is analyzed. -/
theorem graph_edge (context : Context) {id target : BlockId} {block : Block (Simple Expr) Expr}
    (found : (FlowGraph.ofStmt code).blocks[id]? = some block)
    (goesOn : Memory.machine.pass block.steps block.terminator memory = .ok (target, later)) :
    ∃ kind, (target, kind) ∈ (code.graph context).successors id := by
  obtain ⟨kind, leads⟩ := Machine.pass_edge goesOn
  rw [FlowGraph.successors, block_graph context found]
  rw [← Terminator.successors_map (Expr.meaning context)] at leads
  exact ⟨kind, leads⟩

section Entries

open Comparison

variable {stopRequested : Bool} {start : Store} {order : List BlockId} {final : Session}
  {solution : Solution}
  (tracking : (ofLayout layout .exact stopRequested).Tracking (code.graph context))
  (startWithin : ∀ table, start.Within table)
  (stable : (ofLayout layout .exact stopRequested).Stable context (code.graph context) start order
    final solution)
include tracking startWithin stable

/-- The entry of a block covers what comes to the block. -/
theorem entry_covers {id : BlockId} (visits : id ∈ order)
    (inside : (id : Nat) < (code.graph context).blocks.size)
    (arrives : ∀ table sweep,
      (ofLayout layout .exact stopRequested).Known context (code.graph context) table sweep →
      table.Extends final.slots → (∀ other, Store.Matches .exact final.slots
        (sweep.flow other).entry (solution.entry other)) →
      ∃ store ∈ sweep.arriving start (code.graph context).sources id,
        store.Covers layout final.slots memory) :
    (solution.entry id).Covers layout final.slots memory := by
  obtain ⟨fits, now, known, entries, settled⟩ := stable
  obtain ⟨table, sweep, knownEarly, extended, same, entry⟩ := (settled id visits inside).visited
  obtain ⟨store, member, covers⟩ := arrives table sweep knownEarly extended
    fun other => entries other ▸ same other
  have within := knownEarly.arriving_within tracking (startWithin table)
    (code.graph context).sources id
  have joined := Store.below_joinAll (fun other inflow => (within other inflow).agrees extended) member
  rw [entries id]
  exact covers.below fits (joined.trans entry.below) (known.entry_within tracking id)

/-- The entry of the code covers the memory at its start if the start of the analysis does. -/
theorem start_covers (visits : FlowGraph.entry ∈ order)
    (inside : (FlowGraph.entry : Nat) < (code.graph context).blocks.size)
    (covers : start.Covers layout final.slots memory) :
    (solution.entry FlowGraph.entry).Covers layout final.slots memory :=
  entry_covers tracking startWithin stable visits inside fun _ _ _ _ _ =>
    ⟨start, mem_arrivals.mpr (.inr ⟨rfl, rfl⟩), covers⟩

/-- If the entry of a block covers the memory, then the entry of the block where control goes on
covers the memory there. -/
theorem next_covers (sound : Code.Sound layout context code) {id target : BlockId}
    {block : Block (Simple Expr) Expr} (found : (FlowGraph.ofStmt code).blocks[id]? = some block)
    (covers : (solution.entry id).Covers layout final.slots memory)
    (goesOn : Memory.machine.pass block.steps block.terminator memory = .ok (target, later))
    (visits : target ∈ order) (inside : (target : Nat) < (code.graph context).blocks.size) :
    (solution.entry target).Covers layout final.slots later := by
  refine entry_covers tracking startWithin stable visits inside
    fun table sweep known extended same => ?_
  have inGraph := block_graph context found
  rcases known.cases id with unreached | ⟨other, early, foundOther, sent⟩
  · have reachable := (same id).reachable
    rw [unreached, covers.reachable] at reachable
    cases reachable
  · obtain rfl : block.meaning context = other := Option.some.inj (inGraph.symm.trans foundOther)
    have member := Array.mem_of_getElem? inGraph
    have coversEntry := covers.below stable.fits (same id).symm.below
      ((known.entry_within tracking id).extend extended)
    have departs := transfer_departs (sound.block found) sent.fits (coversEntry.restrict sent.fits
      stable.fits ((sent.extends tracking member).trans extended) sent.within)
    rw [goesOn] at departs
    obtain ⟨store, inOutflow, coversStore⟩ := departs
    obtain ⟨kind, edge⟩ := graph_edge context found goesOn
    rw [sent.outflow] at inOutflow
    have fitsAfter := (transfer_alone context tracking member sent.fits sent.within).grows.fits
    exact ⟨store, mem_arrivals.mpr (.inl ⟨id, FlowGraph.mem_sources edge inside, inOutflow⟩),
      coversStore.extend fitsAfter stable.fits (sent.known.trans extended)⟩

/-- An execution that is stopped comes to a block of which the entry covers the memory, and it is
stopped there. -/
theorem walk_stops (sound : Code.Sound layout context code)
    (visits : ∀ id : Nat, (code.graph context).Reachable id →
      id < (code.graph context).blocks.size → id ∈ order)
    {fuel : Nat} {id : BlockId} (reachable : (code.graph context).Reachable id)
    (covers : (id : Nat) < (code.graph context).blocks.size →
      (solution.entry id).Covers layout final.slots memory)
    {last : Memory} (stopped : (FlowGraph.ofStmt code).walk Memory.machine fuel id memory =
      .ended .stopped last) :
    ∃ other block before, (FlowGraph.ofStmt code).blocks[other]? = some block ∧
      (solution.entry other).Covers layout final.slots before ∧
      Memory.machine.pass block.steps block.terminator before = .error (.stopped, last) := by
  induction fuel generalizing id memory with
  | zero => cases stopped
  | succ fuel ih =>
      rw [FlowGraph.walk] at stopped
      cases found : (FlowGraph.ofStmt code).blocks[id]? with
      | none =>
          rw [found] at stopped
          cases stopped
      | some block =>
          simp only [found] at stopped
          have inGraph := block_graph context found
          have coversEntry := covers (Array.getElem?_eq_some_iff.mp inGraph).1
          cases passed : Memory.machine.pass block.steps block.terminator memory with
          | error stop =>
              simp only [passed] at stopped
              obtain ⟨ending, stop⟩ := stop
              obtain ⟨rfl, rfl⟩ : ending = .stopped ∧ stop = last := by simpa using stopped
              exact ⟨id, block, memory, found, coversEntry, passed⟩
          | ok onward =>
              simp only [passed] at stopped
              obtain ⟨target, later⟩ := onward
              obtain ⟨kind, edge⟩ := graph_edge context found passed
              have reachableNext := reachable.step edge
              exact ih reachableNext (fun inside => next_covers tracking startWithin stable sound found
                coversEntry passed (visits _ reachableNext inside) inside) stopped

end Entries

end NullFlow
