import NullFlow.Analysis.Check
import NullFlow.Analysis.Meaning
import NullFlow.FlowGraph.Order
/-!
The solver. It passes over the blocks of a graph until the store at the entry of every block is
the join of what its edges bring. Only then the blocks are visited once more to report what is
wrong.
-/

namespace NullFlow

/-- The stores that a block sends along its edges. -/
abbrev Outflow := List (BlockId × Store)

structure Solution where
  /-- The store at the entry of every block. -/
  entries : Array Store
  /-- The number of passes. -/
  iterations : Nat
  /-- The last pass changed nothing. Otherwise the slots that it changed were widened. -/
  converged : Bool

/-- What the solver knows of a block. -/
structure BlockFlow where
  entry : Store
  outflow : Outflow

/-- Nothing reaches the block yet. -/
def BlockFlow.unreached : BlockFlow := ⟨.unreachable, []⟩

/-- The state of the solver. -/
structure Sweep where
  /-- What is known of every block, by its number. -/
  flows : Array BlockFlow
  /-- The entry of a block changed in this pass. -/
  changed : Bool

namespace Solution

def entry (solution : Solution) (block : BlockId) : Store :=
  solution.entries.getD block .unreachable

end Solution

namespace Sweep

/-- Nothing is reached yet. -/
def start (count : Nat) : Sweep := ⟨Array.replicate count .unreached, false⟩

def flow (sweep : Sweep) (block : BlockId) : BlockFlow := sweep.flows.getD block .unreached

/-- The stores at the entries of all blocks. -/
def entries (sweep : Sweep) : Array Store := sweep.flows.map BlockFlow.entry

/-- The join of the stores on all edges into a block, which leave the sources. -/
def inflow (sweep : Sweep) (table : SlotTable) (sources : List BlockId) (block : BlockId) : Store :=
  sources.foldl
    (fun merged source => (sweep.flow source).outflow.foldl
      (fun merged edge => if edge.1 = block then merged.join table edge.2 else merged) merged)
    .unreachable

/-- The slots that differ between the entries of two sweeps. -/
def unstable (table : SlotTable) (now before : Sweep) : List SlotId :=
  (now.entries.toList.zip before.entries.toList).flatMap fun (current, previous) =>
    Store.changedSlots table current previous

end Sweep

section Run

variable (context : Context)

/-- Declares a variable with a value. -/
def Variable.declare (target : Variable) (meaning : Meaning) (store : Store) : Analysis Store := do
  let (value, store) ← meaning.value store
  if !store.isReachable then return store
  if !target.implicit then
    context.checkConversion value target.ty meaning.span .assignment
  let slot ← Analysis.onSlots (SlotTable.intern (.localVar target.id) target.ty.declaredState)
  Analysis.onSlots (store.write (some slot) value)

def Step.run : Step (Simple Meaning) Meaning → Store → Analysis Store
  | .simple (.declare _ none), store => return store
  | .simple (.declare target (some meaning)), store => target.declare context meaning store
  | .simple (.evaluate meaning), store => Prod.snd <$> meaning.value store
  | .update meaning, store => Prod.snd <$> meaning.value store

/-- What is known in an arm of a switch. Without a pattern the arm is taken if no other fits. -/
def SwitchTarget.narrow (value : Value) (hasNullArm : Bool) (store : Store) :
    Option Pattern → Store
  | some .null => store.assign value.slot? .maybeNull
  | some (.type _) => store.assign value.slot? .notNull
  | none => if hasNullArm then store.assign value.slot? .notNull else store

def Terminator.run : Terminator Meaning → Store → Analysis Outflow
  | .goto target, store => return [(target, store)]
  | .branch condition whenTrue whenFalse, store => do
      let branches ← condition.branches store
      return [(whenTrue, branches.whenTrue), (whenFalse, branches.whenFalse)]
  | .switch scrutinee targets, store => do
      let (value, store) ← scrutinee.value store
      let hasNullArm := targets.any fun arm => arm.pattern?.any Pattern.isNull
      return targets.map fun arm =>
        (arm.target, SwitchTarget.narrow value hasNullArm store arm.pattern?)
  | .returnValue none _, _ => return []
  | .returnValue (some meaning) _, store => do
      let (value, store) ← meaning.value store
      if store.isReachable then
        context.checkReturn value meaning.span
        Analysis.addReturn ⟨value.state, value.ty?⟩
      return []
  | .throwValue none, _ => return []
  | .throwValue (some meaning), store => do
      let _ ← meaning.value store
      return []
  | .exit, _ => return []

/-- Runs a block and yields what it sends along its edges. -/
def Block.transfer (block : Block (Simple Meaning) Meaning) (store : Store) : Analysis Outflow := do
  let store ← block.steps.foldlM (fun store step => step.run context store) store
  block.terminator.run context store

variable (graph : MeaningGraph) (start : Store)

/-- Brings the entry of a block up to date and runs the block. -/
def Sweep.visit (sources : Array (List BlockId)) (sweep : Sweep) (id : BlockId) : Analysis Sweep :=
  match graph.blocks[id]? with
  | none => return sweep
  | some block => do
      let table ← Analysis.slots
      let inflow := sweep.inflow table (sources.getD id []) id
      let entry := if id = FlowGraph.entry then inflow.join table start else inflow
      let changed := sweep.changed || !Store.equivalent table entry (sweep.flow id).entry
      let outflow ← block.transfer context entry
      return ⟨sweep.flows.setIfInBounds id ⟨entry, outflow⟩, changed⟩

/-- Passes over the blocks until nothing changes. `later` bounds the passes after the next one.
There is no answer if the analysis has to stop. -/
def Sweep.iterate (sources : Array (List BlockId)) (order : List BlockId) (later passes : Nat)
    (before : Sweep) : Analysis (Option Solution) := do
  if ← Analysis.mustStop context then return none
  Analysis.clearReturns
  let now ← order.foldlM (Sweep.visit context graph start sources) { before with changed := false }
  if !now.changed then return some ⟨now.entries, passes + 1, true⟩
  match later with
  | 0 =>
      let unstable := Sweep.unstable (← Analysis.slots) now before
      return some ⟨now.entries.map fun store => store.widen unstable, passes + 1, false⟩
  | later + 1 => Sweep.iterate sources order later (passes + 1) now

/-- Solves a graph. At least one pass is made. -/
def FlowGraph.solve : Analysis (Option Solution) :=
  Sweep.iterate context graph start graph.sources graph.reversePostorder
    (context.options.maxIterations - 1) 0 (.start graph.blocks.size)

/-- Solves a graph in silence, and then visits every reachable block once to report on it. -/
def FlowGraph.analyze : Analysis (Option Solution) := do
  let wasMuted ← Analysis.mute true
  let solution? ← graph.solve context start
  let _ ← Analysis.mute wasMuted
  match solution? with
  | none => return none
  | some solution => do
      Analysis.clearReturns
      graph.blocks.toList.zipIdx.forM fun (block, id) => do
        if (solution.entry id).isReachable then
          let _ ← block.transfer context (solution.entry id)
      return some solution

/-- Analyzes the body of a lambda against the delegate that is expected of it. The value is the
join of all that the body returns. -/
def FlowGraph.analyzeLambda (delegate? : Option Ty) : Analysis (Option Value) := do
  let expected? := (delegate?.bind Ty.result?).filter fun ty => !ty.isVoid
  Analysis.pushFrame expected?
  if (← graph.analyze context Store.entry).isNone then Analysis.cancel
  let frame ← Analysis.popFrame
  if frame.returns.isEmpty then return none
  let state := FlowState.joinAll (frame.returns.map Returned.state)
  let ty? := context.classes.bestCommon? (frame.returns.filterMap Returned.ty?)
  return some (.loose state (ty?.map (Ty.withState state)))

end Run
end NullFlow
