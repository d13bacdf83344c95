import NullFlow.Proofs.Analysis.Passes
import NullFlow.Proofs.FlowGraph.Edges
import NullFlow.Proofs.FlowGraph.Order
/-!
If the last pass of the solver changes nothing, then the entry of every block is the join of what the
blocks send to it when they are run once more. During the pass the sweep and the slot table still
change. But no entry changes its states, so every flow of the pass stands for the same run.
-/

namespace NullFlow

/-- What a block sends when it is run once more from its entry. -/
def FlowGraph.resent (graph : MeaningGraph) (context : Context) (entries : BlockId → Store)
    (session : Session) (id : BlockId) : Outflow :=
  match graph.blocks[id]? with
  | some block => (block.transfer context (entries id) session).1
  | none => []

/-- The entry of every reachable block is equivalent to the join of what all blocks send to it from
their entries, and of the start if the graph is entered there. -/
def FlowGraph.SolvedBy (graph : MeaningGraph) (context : Context) (start : Store) (session : Session)
    (solution : Solution) : Prop :=
  ∀ id, graph.Reachable id → id < graph.blocks.size →
    Store.equivalent session.slots (solution.entry id) (Store.joinAll session.slots
      (arrivals (graph.resent context solution.entry session) start
        (List.range graph.blocks.size) id)) = true

/-- A block sends stores along its edges alone. -/
theorem FlowGraph.mem_resent {context : Context} (graph : MeaningGraph) {entries : BlockId → Store}
    {session : Session} {source target : BlockId} {store : Store}
    (sent : (target, store) ∈ graph.resent context entries session source) :
    ∃ kind, (target, kind) ∈ graph.successors source := by
  rw [resent] at sent
  rw [successors]
  cases found : graph.blocks[source]? with
  | none =>
      rw [found] at sent
      cases sent
  | some block =>
      rw [found] at sent
      exact Block.mem_transfer sent

namespace Comparison

variable {pair : Comparison} {context : Context} {graph : MeaningGraph} {start : Store}
  {sweep now before : Sweep} {session final : Session} {entries : BlockId → Store}

section Resent

variable (exact : pair.bound = .exact) (tracking : pair.Tracking graph)
  (fits : pair.layout.Fits final.slots) (within : ∀ id, (entries id).Within final.slots)
  (known : pair.Known context graph final.slots sweep)
  (same : ∀ id, Store.Matches .exact final.slots (sweep.flow id).entry (entries id))
include exact tracking fits within known same

/-- A block whose entry has the states of the sweep sends the stores of the sweep again. -/
theorem Known.resent_alike (id : BlockId) :
    (∀ edge ∈ (sweep.flow id).outflow, edge.2.isReachable = true →
      ∃ store, (edge.1, store) ∈ graph.resent context entries final id ∧
        Store.Matches .exact final.slots edge.2 store) ∧
    ∀ edge ∈ graph.resent context entries final id, edge.2.isReachable = true →
      ∃ store, (edge.1, store) ∈ (sweep.flow id).outflow ∧
        Store.Matches .exact final.slots store edge.2 := by
  rcases known.cases id with unreached | ⟨block, early, found, sent⟩
  · have sameEntry := (same id).reachable
    rw [unreached] at sameEntry ⊢
    refine ⟨fun edge member => absurd member List.not_mem_nil, fun edge member reachable => ?_⟩
    cases isEntry : entries id with
    | reachable facts => rw [isEntry] at sameEntry; cases sameEntry
    | unreachable =>
        cases found : graph.blocks[id]? with
        | none =>
            rw [FlowGraph.resent, found] at member
            cases member
        | some block =>
            simp only [FlowGraph.resent, found, isEntry] at member
            have inGraph := Array.mem_of_getElem? found
            rw [transfer_unreachable (tracking final.slots block inGraph) final edge
              member] at reachable
            cases reachable
  · have alike := sent.again tracking (Array.mem_of_getElem? found) fits (within id)
      (exact ▸ same id)
    have outflow : graph.resent context entries final id =
        (block.transfer context (entries id) final).1 := by
      rw [FlowGraph.resent, found]
    rw [outflow]
    refine ⟨fun edge member _ => ?_, fun edge member _ => ?_⟩
    · obtain ⟨store, member, matching⟩ := outflows_left alike edge member
      exact ⟨store, member, exact ▸ matching⟩
    · obtain ⟨store, member, matching⟩ := outflows_right alike edge member
      exact ⟨store, member, exact ▸ matching⟩

variable (startWithin : ∀ table, start.Within table)
include startWithin

/-- What arrived during a pass joins to what arrives when all blocks are run once more. -/
theorem Known.arriving_alike {table : SlotTable} (knownEarly : pair.Known context graph table sweep)
    (extended : table.Extends final.slots) {id : Nat} (inside : id < graph.blocks.size) :
    Store.Matches .exact final.slots
      (Store.joinAll table (sweep.arriving start graph.sources id))
      (Store.joinAll final.slots
        (arrivals (graph.resent context entries final) start (List.range graph.blocks.size) id)) := by
  have withinEarly := knownEarly.arriving_within tracking (startWithin table) graph.sources id
  have agrees : ∀ store ∈ sweep.arriving start graph.sources id, store.Agrees table final.slots :=
    fun store member => (withinEarly store member).agrees extended
  refine Store.Below.antisymm (Store.joinAll_mono agrees (fun store _ => Store.agrees_refl store _) ?_)
    (Store.joinAll_mono (fun store _ => Store.agrees_refl store _) agrees ?_)
  · intro store member reachable
    rcases mem_arrivals.mp member with ⟨source, _, sent⟩ | ⟨atEntry, rfl⟩
    · obtain ⟨again, member, matching⟩ :=
        (known.resent_alike exact tracking fits within same source).1 _ sent reachable
      refine ⟨again, mem_arrivals.mpr (Or.inl ⟨source, List.mem_range.mpr ?_, member⟩),
        matching.below⟩
      by_contra outside
      rw [known.unreached (Array.getElem?_eq_none (Nat.le_of_not_lt outside))] at sent
      cases sent
    · exact ⟨_, mem_arrivals.mpr (Or.inr ⟨atEntry, rfl⟩), .refl _⟩
  · intro store member reachable
    rcases mem_arrivals.mp member with ⟨source, _, sent⟩ | ⟨atEntry, rfl⟩
    · obtain ⟨early, memberEarly, matching⟩ :=
        (known.resent_alike exact tracking fits within same source).2 _ sent reachable
      refine ⟨early, mem_arrivals.mpr (Or.inl ⟨source, ?_, memberEarly⟩), matching.symm.below⟩
      obtain ⟨kind, edge⟩ := graph.mem_resent sent
      exact FlowGraph.mem_sources edge inside
    · exact ⟨_, mem_arrivals.mpr (Or.inr ⟨atEntry, rfl⟩), .refl _⟩

end Resent

section Settled

variable {order : List BlockId} {target : SlotTable}

/-- The block was visited when the entries had their final states already. -/
structure Settled (pair : Comparison) (context : Context) (graph : MeaningGraph) (start : Store)
    (target : SlotTable) (now : Sweep) (id : BlockId) : Prop where
  visited : ∃ table sweep, pair.Known context graph table sweep ∧ table.Extends target ∧
    (∀ other, Store.Matches .exact target (sweep.flow other).entry (now.flow other).entry) ∧
    Store.Matches .exact target (Store.joinAll table (sweep.arriving start graph.sources id))
      (now.flow id).entry

variable (tracking : pair.Tracking graph) (startWithin : ∀ table, start.Within table)
include tracking startWithin

/-- A visit that counts as no change leaves the states of all entries. -/
theorem visit_settles (known : pair.Known context graph session.slots sweep)
    (fits : pair.layout.Fits session.slots) (id : Nat)
    (unchanged : (Sweep.visit context graph start graph.sources sweep id session).1.changed = false)
    (extended : (Sweep.visit context graph start graph.sources sweep id
      session).2.slots.Extends target) :
    (∀ other, Store.Matches .exact target (sweep.flow other).entry
      ((Sweep.visit context graph start graph.sources sweep id session).1.flow other).entry) ∧
    (id < graph.blocks.size → Store.Matches .exact target
      (Store.joinAll session.slots (sweep.arriving start graph.sources id))
      ((Sweep.visit context graph start graph.sources sweep id session).1.flow id).entry) ∧
    sweep.changed = false := by
  cases found : graph.blocks[id]? with
  | none =>
      rw [visit_outside found] at unchanged ⊢
      refine ⟨fun _ => .refl _, fun inside => ?_, unchanged⟩
      rw [Array.getElem?_eq_none_iff] at found
      omega
  | some block =>
      have alone : pair.Alone (pair.sweeps context graph) session
          (Sweep.visit context graph start graph.sources sweep id) :=
        visit_alone tracking known fits (startWithin _) id
      have larger := alone.grows.slots.trans extended
      have inside : id < sweep.flows.size := by
        rw [known.size]
        exact (Array.getElem?_eq_some_iff.mp found).1
      rw [visit_eq found] at unchanged ⊢
      obtain ⟨unchangedBefore, equivalent⟩ := Bool.or_eq_false_iff.mp unchanged
      have same := (Store.equivalent_iff_matches.mp (by simpa using equivalent)).extend larger
        (known.visited tracking graph.sources fits (startWithin _) id block).within
        (known.entry_within tracking id)
      refine ⟨fun other => ?_, fun _ => ?_, unchangedBefore⟩
      · rw [Sweep.flow_setIfInBounds sweep inside]
        by_cases isVisited : other = id
        · subst isVisited
          rw [if_pos rfl]
          exact same.symm
        · rw [if_neg isVisited]
          exact .refl _
      · rw [Sweep.flow_setIfInBounds sweep inside, if_pos rfl]
        exact .refl _

/-- If no visit counts as a change, every block was visited with the final states. -/
theorem visits_settle (known : pair.Known context graph session.slots sweep)
    (fits : pair.layout.Fits session.slots)
    (visits : order.foldlM (Sweep.visit context graph start graph.sources) sweep session =
      (now, final))
    (unchanged : now.changed = false) :
    (∀ other, Store.Matches .exact final.slots (sweep.flow other).entry (now.flow other).entry) ∧
      (∀ id ∈ order, id < graph.blocks.size →
        pair.Settled context graph start final.slots now id) ∧
      sweep.changed = false := by
  induction order generalizing session sweep with
  | nil =>
      obtain ⟨rfl, rfl⟩ := Prod.mk.injEq .. ▸ visits
      exact ⟨fun _ => .refl _, fun _ member => absurd member List.not_mem_nil, unchanged⟩
  | cons head rest ih =>
      have alone : pair.Alone (pair.sweeps context graph) session
          (Sweep.visit context graph start graph.sources sweep head) :=
        visit_alone tracking known fits (startWithin _) head
      have aloneRest : pair.Alone (pair.sweeps context graph)
          (Sweep.visit context graph start graph.sources sweep head session).2
          (rest.foldlM (Sweep.visit context graph start graph.sources)
            (Sweep.visit context graph start graph.sources sweep head session).1) :=
        .foldlM alone.grows.fits alone.fits fun other _ _ _ grows known =>
          visit_alone tracking known grows.fits (startWithin _) other
      have visitsRest : rest.foldlM (Sweep.visit context graph start graph.sources)
          (Sweep.visit context graph start graph.sources sweep head session).1
          (Sweep.visit context graph start graph.sources sweep head session).2 = (now, final) := by
        rwa [List.foldlM_cons] at visits
      have later := aloneRest.grows.slots
      rw [visitsRest] at later
      obtain ⟨sameRest, settledRest, unchangedHead⟩ := ih alone.fits alone.grows.fits visitsRest
      obtain ⟨sameHead, settledHead, unchangedBefore⟩ :=
        visit_settles tracking startWithin known fits head unchangedHead later
      refine ⟨fun other => (sameHead other).trans (sameRest other), fun id member inside => ?_,
        unchangedBefore⟩
      rcases List.mem_cons.mp member with rfl | inRest
      · exact ⟨session.slots, sweep, known, alone.grows.slots.trans later,
          fun other => (sameHead other).trans (sameRest other),
          (settledHead inside).trans (sameRest id)⟩
      · exact settledRest id inRest inside

end Settled

section Solved

variable {order : List BlockId}

/-- The answer of the solver comes from a pass that changed nothing. -/
structure Stable (pair : Comparison) (context : Context) (graph : MeaningGraph) (start : Store)
    (order : List BlockId) (final : Session) (solution : Solution) : Prop where
  fits : pair.layout.Fits final.slots
  found : ∃ now, pair.Known context graph final.slots now ∧
    (∀ id, solution.entry id = (now.flow id).entry) ∧
    ∀ id ∈ order, id < graph.blocks.size → pair.Settled context graph start final.slots now id

variable (tracking : pair.Tracking graph) (startWithin : ∀ table, start.Within table)
include tracking startWithin

/-- A pass that changes nothing has settled every block. -/
theorem pass_settles
    (passed : pass context graph start graph.sources order before session = (now, final))
    (known : pair.Known context graph session.slots before)
    (fits : pair.layout.Fits session.slots)
    (unchanged : now.changed = false) :
    ∀ id ∈ order, id < graph.blocks.size →
      pair.Settled context graph start final.slots now id := by
  have cleared := Silent.clearReturns.alone pair fits
  have knownCleared := (pair.sweeps context graph).grow cleared.grows.slots known
  exact (visits_settle tracking startWithin knownCleared.restart cleared.grows.fits passed
    unchanged).2.1

/-- The solver calls a solution converged only after a pass that changed nothing. -/
theorem iterate_stable (later passes : Nat) (fits : pair.layout.Fits session.slots)
    (known : pair.Known context graph session.slots before) {solution : Solution}
    (solved : Sweep.iterate context graph start graph.sources order later passes before session =
      (some solution, final))
    (converged : solution.converged = true) :
    pair.Stable context graph start order final solution := by
  refine iterate_induct context graph start graph.sources order
    (motive := fun _ before session answer => pair.layout.Fits session.slots →
      pair.Known context graph session.slots before → answer = (some solution, final) →
      pair.Stable context graph start order final solution)
    ?stopped ?settled ?exhausted ?again later passes before session fits known solved
  case stopped =>
    intro _ _ _ _ _ _ answer
    cases answer
  case settled =>
    intro _ before session now after passes _ passed unchanged fits known answer
    cases answer
    obtain ⟨grows, knownNow⟩ := known.pass tracking startWithin fits passed
    refine ⟨grows.fits, now, knownNow, Sweep.getD_entries now, ?_⟩
    exact pass_settles tracking startWithin passed known fits unchanged
  case exhausted =>
    intro _ _ _ _ _ _ _ _ _ _ answer
    cases answer
    cases converged
  case again =>
    intro _ before session now after _ _ passed _ ih fits known answer
    obtain ⟨grows, knownNow⟩ := known.pass tracking startWithin fits passed
    exact ih grows.fits knownNow answer

/-- A converged answer is stable under every visit. -/
theorem solve_stable (fits : pair.layout.Fits session.slots) {solution : Solution}
    (solved : graph.solve context start session = (some solution, final))
    (converged : solution.converged = true) :
    pair.Stable context graph start graph.reversePostorder final solution :=
  iterate_stable tracking startWithin _ 0 fits (known_start _) solved converged

omit startWithin in
/-- A block was visited with entries like those of the solution, and what arrived at it then makes
up its entry in the solution. -/
theorem Stable.visited {solution : Solution}
    (stable : pair.Stable context graph start order final solution) {id : Nat} (visits : id ∈ order)
    (inside : id < graph.blocks.size) :
    ∃ table sweep, pair.Known context graph table sweep ∧ table.Extends final.slots ∧
      pair.Known context graph final.slots sweep ∧
      (∀ other, (solution.entry other).Within final.slots) ∧
      (∀ other, Store.Matches .exact final.slots (sweep.flow other).entry (solution.entry other)) ∧
      Store.Matches .exact final.slots (Store.joinAll table (sweep.arriving start graph.sources id))
        (solution.entry id) := by
  obtain ⟨now, knownNow, entries, settled⟩ := stable.found
  obtain ⟨table, sweep, known, extended, same, entry⟩ := (settled id visits inside).visited
  refine ⟨table, sweep, known, extended, (pair.sweeps context graph).grow extended known, ?_, ?_, ?_⟩
  · exact fun other => entries other ▸ knownNow.entry_within tracking other
  · exact fun other => entries other ▸ same other
  · exact entries id ▸ entry

variable (exact : pair.bound = .exact)
include exact

/-- The entry of a block that the passes visit is the join of what arrives. -/
theorem Stable.entry_matches {solution : Solution}
    (stable : pair.Stable context graph start order final solution) {id : Nat} (visits : id ∈ order)
    (inside : id < graph.blocks.size) :
    Store.Matches .exact final.slots (solution.entry id) (Store.joinAll final.slots
      (arrivals (graph.resent context solution.entry final) start
        (List.range graph.blocks.size) id)) := by
  obtain ⟨table, sweep, known, extended, knownFinal, within, same, entry⟩ :=
    stable.visited tracking visits inside
  have again := knownFinal.arriving_alike exact tracking stable.fits within same startWithin known
    extended inside
  exact entry.symm.trans again

/-- A converged solution solves the equations of the graph. -/
theorem solve_solves (fits : pair.layout.Fits session.slots) {solution : Solution}
    (solved : graph.solve context start session = (some solution, final))
    (converged : solution.converged = true) : graph.SolvedBy context start final solution := by
  have stable := solve_stable tracking startWithin fits solved converged
  intro id reachable inside
  exact Store.equivalent_iff_matches.mpr (stable.entry_matches tracking startWithin exact
    (FlowGraph.mem_reversePostorder reachable inside) inside)

end Solved

end Comparison
end NullFlow
