import NullFlow.Analysis.Solver
import NullFlow.Proofs.Analysis.Transfer
import NullFlow.Proofs.Store.Joins
/-!
What the solver knows of a block was found by running the block in an earlier session. The passes
of the solver keep to this, and they stop the analysis only if the caller wants it to stop.
-/

namespace NullFlow

section Arrivals

/-- The stores that come to a block along the edges from the sources, and the start of the graph
at its entry. -/
def arrivals (send : BlockId → Outflow) (start : Store) (sources : List BlockId)
    (block : BlockId) : List Store :=
  (sources.flatMap fun source => (send source).filterMap fun edge =>
    if edge.1 = block then some edge.2 else none) ++
    if block = FlowGraph.entry then [start] else []

/-- What arrives at a block was sent to it, or is the start of the method. -/
theorem mem_arrivals {send : BlockId → Outflow} {start store : Store} {sources : List BlockId}
    {block : BlockId} : store ∈ arrivals send start sources block ↔
      (∃ source ∈ sources, (block, store) ∈ send source) ∨
        block = FlowGraph.entry ∧ store = start := by
  have atEntry : store ∈ (if block = FlowGraph.entry then [start] else []) ↔
      block = FlowGraph.entry ∧ store = start := by
    split <;> simp_all
  rw [arrivals, List.mem_append, atEntry, List.mem_flatMap]
  refine or_congr_left (exists_congr fun source => and_congr_right fun _ => ?_)
  rw [List.mem_filterMap]
  constructor
  · rintro ⟨⟨target, sent⟩, member, same⟩
    simp only [Option.ite_none_right_eq_some, Option.some.injEq] at same
    rw [← same.1, ← same.2]
    exact member
  · intro member
    exact ⟨(block, store), member, by simp⟩

/-- Edges to other blocks do not count. -/
theorem foldl_edges (table : SlotTable) (block : BlockId) (outflow : Outflow) (store : Store) :
    outflow.foldl (fun merged edge => if edge.1 = block then merged.join table edge.2 else merged)
        store =
      (outflow.filterMap fun edge => if edge.1 = block then some edge.2 else none).foldl
        (Store.join table) store := by
  induction outflow generalizing store with
  | nil => rfl
  | cons edge rest ih =>
      by_cases leads : edge.1 = block
      · simp [leads, ih]
      · simp [leads, ih]

/-- A block joins all that its sources send to it. -/
theorem foldl_sources (table : SlotTable) (send : BlockId → Outflow) (block : BlockId)
    (sources : List BlockId) (store : Store) :
    sources.foldl (fun merged source => (send source).foldl
        (fun merged edge => if edge.1 = block then merged.join table edge.2 else merged) merged)
        store =
      (sources.flatMap fun source => (send source).filterMap fun edge =>
        if edge.1 = block then some edge.2 else none).foldl (Store.join table) store := by
  induction sources generalizing store with
  | nil => rfl
  | cons source rest ih =>
      rw [List.foldl_cons, ih, List.flatMap_cons, List.foldl_append, foldl_edges]

/-- What a sweep brings to a block. -/
def Sweep.arriving (sweep : Sweep) (start : Store) (sources : Array (List BlockId))
    (id : BlockId) : List Store :=
  arrivals (fun source => (sweep.flow source).outflow) start (sources.getD id []) id

/-- The entry of a block is the join of what arrives. -/
theorem joinAll_arriving (sweep : Sweep) (table : SlotTable) (start : Store)
    (sources : Array (List BlockId)) (id : BlockId) :
    (if id = FlowGraph.entry then (sweep.inflow table (sources.getD id []) id).join table start
      else sweep.inflow table (sources.getD id []) id) =
      Store.joinAll table (sweep.arriving start sources id) := by
  have inflow := foldl_sources table (fun source => (sweep.flow source).outflow) id
    (sources.getD id []) .unreachable
  rw [Sweep.arriving, arrivals, Store.joinAll_append, Store.joinAll, Sweep.inflow, inflow]
  split <;> rfl

end Arrivals

namespace Sweep

/-- A visit changes the flow of one block. -/
theorem flow_setIfInBounds (sweep : Sweep) {id : Nat} (inside : id < sweep.flows.size)
    (flow : BlockFlow) (changed : Bool) (other : Nat) :
    Sweep.flow ⟨sweep.flows.setIfInBounds id flow, changed⟩ other =
      if other = id then flow else sweep.flow other := by
  by_cases same : other = id
  · subst same
    simp [Sweep.flow, Array.getD_eq_getD_getElem?, inside]
  · simp [Sweep.flow, Array.getD_eq_getD_getElem?, same, Ne.symm same]

theorem flow_start (count id : Nat) : (start count).flow id = .unreached := by
  by_cases inside : id < count <;> simp [Sweep.flow, start, inside]

theorem getD_entries (sweep : Sweep) (id : Nat) :
    sweep.entries.getD id .unreachable = (sweep.flow id).entry := by
  by_cases inside : id < sweep.flows.size <;>
    simp [entries, Sweep.flow, Array.getD_eq_getD_getElem?, inside, BlockFlow.unreached]

end Sweep

namespace Comparison

variable (pair : Comparison) (context : Context) (graph : MeaningGraph)

/-- The block sent the outflow from the entry when it was run in the session. What it found is
still in the table. -/
structure Sent (table : SlotTable) (block : Block (Simple Meaning) Meaning) (flow : BlockFlow)
    (session : Session) : Prop where
  fits : pair.layout.Fits session.slots
  within : flow.entry.Within session.slots
  known : (block.transfer context flow.entry session).2.slots.Extends table
  outflow : (block.transfer context flow.entry session).1 = flow.outflow

/-- The blocks of the graph were run as the sweep says. -/
structure Known (table : SlotTable) (sweep : Sweep) : Prop where
  size : sweep.flows.size = graph.blocks.size
  sent : ∀ (id : Nat) block, graph.blocks[id]? = some block →
    sweep.flow id = .unreached ∨ ∃ session, pair.Sent context table block (sweep.flow id) session

def sweeps : View Sweep where
  fits := pair.Known context graph
  alike _ _ := True
  grow extended known :=
    ⟨known.size, fun id block found => (known.sent id block found).imp_right fun ⟨session, sent⟩ =>
      ⟨session, sent.fits, sent.within, sent.known.trans extended, sent.outflow⟩⟩

/-- Solutions of which the stores know slots of the table alone. -/
def solutions : View (Option Solution) where
  fits table solution? := ∀ solution ∈ solution?, ∀ id, (solution.entry id).Within table
  alike _ _ := True
  grow extended within solution member id := (within solution member id).extend extended

variable {pair} {context} {graph} {table : SlotTable} {sweep : Sweep} {session : Session}
  {start : Store}

section Known

/-- At the start every flow is known to be empty. -/
theorem known_start (table : SlotTable) :
    pair.Known context graph table (.start graph.blocks.size) where
  size := by simp [Sweep.start]
  sent id _ _ := Or.inl (Sweep.flow_start graph.blocks.size id)

/-- The changes of a sweep are counted anew in every pass. -/
theorem Known.restart (known : pair.Known context graph table sweep) :
    pair.Known context graph table { sweep with changed := false } := ⟨known.size, known.sent⟩

/-- What lies outside the graph is never reached. -/
theorem Known.unreached (known : pair.Known context graph table sweep) {id : Nat}
    (outside : graph.blocks[id]? = none) : sweep.flow id = .unreached := by
  rw [Array.getElem?_eq_none_iff, ← known.size] at outside
  simp [Sweep.flow, Array.getD_eq_getD_getElem?, outside]

/-- Everything about a block follows if it holds of an unreached one and of one that was run. -/
theorem Known.cases (known : pair.Known context graph table sweep) (id : Nat) :
    sweep.flow id = .unreached ∨ ∃ block session, graph.blocks[id]? = some block ∧
      pair.Sent context table block (sweep.flow id) session := by
  cases found : graph.blocks[id]? with
  | none => exact Or.inl (known.unreached found)
  | some block =>
      exact (known.sent id block found).imp_right fun ⟨session, sent⟩ =>
        ⟨block, session, rfl, sent⟩

variable (tracking : pair.Tracking graph)
include tracking

/-- What a block sends depends on a table that the session extends. -/
theorem Sent.extends {block : Block (Simple Meaning) Meaning} {flow : BlockFlow}
    (member : block ∈ graph.blocks) (sent : pair.Sent context table block flow session) :
    session.slots.Extends table :=
  (transfer_alone context tracking member sent.fits sent.within).grows.slots.trans sent.known

/-- What a block sends are stores of the table. -/
theorem Sent.outflow_within {block : Block (Simple Meaning) Meaning} {flow : BlockFlow}
    (member : block ∈ graph.blocks) (sent : pair.Sent context table block flow session) :
    ∀ edge ∈ flow.outflow, edge.2.Within table := by
  intro edge sentEdge
  rw [← sent.outflow] at sentEdge
  have alone := transfer_alone context tracking member sent.fits sent.within
  exact (alone.fits edge sentEdge).extend sent.known

/-- A run of the block in a later session compares with the earlier one. -/
theorem Sent.again {block : Block (Simple Meaning) Meaning} {flow : BlockFlow}
    (member : block ∈ graph.blocks) {early : Session}
    (sent : pair.Sent context session.slots block flow early)
    (fits : pair.layout.Fits session.slots) {entry : Store} (within : entry.Within session.slots)
    (same : Store.Matches pair.bound session.slots flow.entry entry) :
    (pair.toward session.slots).outflows.alike flow.outflow
      (block.transfer context entry session).1 := by
  have related : (pair.toward session.slots).Related (pair.toward session.slots).stores
      early session flow.entry entry :=
    ⟨sent.fits, fits, .refl _, sent.within, within, fun _ => same⟩
  have runs : (pair.toward session.slots).Runs (pair.toward session.slots).outflows early session
      (block.transfer context flow.entry) (block.transfer context entry) :=
    transfer_runs (tracking session.slots block member) related
  have alike := runs.alike sent.known
  rw [sent.outflow] at alike
  exact alike

/-- Known entries are stores of the table. -/
theorem Known.entry_within (known : pair.Known context graph table sweep) (id : Nat) :
    (sweep.flow id).entry.Within table := by
  rcases known.cases id with unreached | ⟨block, session, found, sent⟩
  · rw [unreached]
    exact Store.within_unreachable table
  · exact sent.within.extend (sent.extends tracking (Array.mem_of_getElem? found))

/-- What known flows send are stores of the table. -/
theorem Known.outflow_within (known : pair.Known context graph table sweep) (id : Nat) :
    ∀ edge ∈ (sweep.flow id).outflow, edge.2.Within table := by
  rcases known.cases id with unreached | ⟨block, session, found, sent⟩
  · rw [unreached]
    intro edge member
    cases member
  · exact sent.outflow_within tracking (Array.mem_of_getElem? found)

/-- What arrives at a block are stores of the table. -/
theorem Known.arriving_within (known : pair.Known context graph table sweep)
    (startWithin : start.Within table) (sources : Array (List BlockId)) (id : Nat) :
    ∀ store ∈ sweep.arriving start sources id, store.Within table := by
  intro store member
  rcases mem_arrivals.mp member with ⟨source, _, sent⟩ | ⟨_, rfl⟩
  · exact known.outflow_within tracking source _ sent
  · exact startWithin

end Known

section Visit

variable {sources : Array (List BlockId)}

/-- The flow that a visit of a block finds. -/
def visited (context : Context) (start : Store) (sources : Array (List BlockId)) (sweep : Sweep)
    (id : BlockId) (block : Block (Simple Meaning) Meaning) (session : Session) : BlockFlow where
  entry := Store.joinAll session.slots (sweep.arriving start sources id)
  outflow := (block.transfer context
    (Store.joinAll session.slots (sweep.arriving start sources id)) session).1

/-- A visit joins what arrives, and transfers it unless the entry is as before. -/
theorem visit_eq {id : Nat} {block : Block (Simple Meaning) Meaning}
    (found : graph.blocks[id]? = some block) (sweep : Sweep) (session : Session) :
    Sweep.visit context graph start sources sweep id session =
      (⟨sweep.flows.setIfInBounds id (visited context start sources sweep id block session),
          sweep.changed || !Store.equivalent session.slots
            (visited context start sources sweep id block session).entry (sweep.flow id).entry⟩,
        (block.transfer context (visited context start sources sweep id block session).entry
          session).2) := by
  simp only [Sweep.visit, found]
  change (fun entry : Store =>
    ((⟨sweep.flows.setIfInBounds id ⟨entry, (block.transfer context entry session).1⟩,
        sweep.changed || !Store.equivalent session.slots entry (sweep.flow id).entry⟩ : Sweep),
      (block.transfer context entry session).2)) _ = _
  rw [joinAll_arriving]
  rfl

/-- A visit outside the graph does nothing. -/
theorem visit_outside {id : Nat} (outside : graph.blocks[id]? = none) (sweep : Sweep) :
    Sweep.visit context graph start sources sweep id = pure sweep := by
  simp only [Sweep.visit, outside]

variable (tracking : pair.Tracking graph)
include tracking

/-- What a visit computes is known. -/
theorem Known.visited (sources : Array (List BlockId)) (known : pair.Known context graph session.slots sweep)
    (fits : pair.layout.Fits session.slots) (startWithin : start.Within session.slots) (id : Nat)
    (block : Block (Simple Meaning) Meaning) :
    pair.Sent context (block.transfer context
      (Comparison.visited context start sources sweep id block session).entry session).2.slots
      block (Comparison.visited context start sources sweep id block session) session where
  fits := fits
  within := Store.within_joinAll (known.arriving_within tracking startWithin sources id)
  known := .refl _
  outflow := rfl

/-- A visit keeps to the layout. -/
theorem visit_alone (known : pair.Known context graph session.slots sweep)
    (fits : pair.layout.Fits session.slots) (startWithin : start.Within session.slots) (id : Nat) :
    pair.Alone (pair.sweeps context graph) session
      (Sweep.visit context graph start sources sweep id) := by
  cases found : graph.blocks[id]? with
  | none =>
      rw [visit_outside found]
      exact ⟨.refl fits, known⟩
  | some block =>
      have sent := known.visited tracking sources fits startWithin id block
      have alone := transfer_alone context tracking (Array.mem_of_getElem? found)
        fits sent.within
      have grown := (pair.sweeps context graph).grow alone.grows.slots known
      have inside : id < sweep.flows.size := by
        rw [known.size]
        exact (Array.getElem?_eq_some_iff.mp found).1
      refine ⟨?_, ?_⟩
      · rw [visit_eq found]
        exact alone.grows
      · rw [visit_eq found]
        refine ⟨by simpa using known.size, fun other otherBlock atOther => ?_⟩
        rw [Sweep.flow_setIfInBounds sweep inside]
        by_cases same : other = id
        · subst same
          obtain rfl : block = otherBlock := Option.some.inj (found.symm.trans atOther)
          rw [if_pos rfl]
          exact Or.inr ⟨session, sent⟩
        · rw [if_neg same]
          exact grown.sent other otherBlock atOther

end Visit

end Comparison
end NullFlow
