import NullFlow.Proofs.Analysis.Absorption
/-!
Converged entries are the least solution of the equations of the graph: the entry of a block is the
join of what all blocks send to it from their entries. Nothing in the equations tells in which order
the blocks were visited, or which slots were there when a block was run.
-/

namespace NullFlow

namespace FlowGraph

variable {graph : MeaningGraph} {context : Context} {start : Store} {session : Session}
  {entries : BlockId → Store}

/-- The entry of every block is equivalent to the join of what all blocks send to it from their
entries, and of the start if the graph is entered there. -/
def EquationsHold (graph : MeaningGraph) (context : Context) (start : Store) (session : Session)
    (entries : BlockId → Store) : Prop :=
  ∀ id : Nat, id < graph.blocks.size → Store.equivalent session.slots (entries id)
    (Store.joinAll session.slots
      (arrivals (graph.resent context entries session) start (List.range graph.blocks.size) id)) =
    true

/-- The entries solve the equations and are below all other solutions. -/
structure LeastSolution (graph : MeaningGraph) (context : Context) (start : Store)
    (session : Session) (entries : BlockId → Store) : Prop where
  holds : graph.EquationsHold context start session entries
  least : ∀ others : BlockId → Store, (∀ id, (others id).Within session.slots) →
    graph.EquationsHold context start session others →
    ∀ id, Store.Below session.slots (entries id) (others id)

/-- The entries of a solution absorb what the blocks send from them. -/
theorem EquationsHold.absorbed (holds : graph.EquationsHold context start session entries) :
    graph.AbsorbedBy context start session entries := by
  intro id inside
  have same := Store.equivalent_iff_matches.mp (holds id inside)
  refine Store.equivalent_iff_matches.mpr (Store.Below.antisymm ?_ ?_)
  · refine Store.joinAll_below (fun store _ => Store.agrees_refl store _) fun store member => ?_
    rcases List.mem_cons.mp member with rfl | arrives
    · exact .refl _
    · exact (Store.below_joinAll (fun other _ => Store.agrees_refl other _) arrives).trans
        same.symm.below
  · exact Store.below_joinAll (fun store _ => Store.agrees_refl store _) List.mem_cons_self

/-- Nothing comes to a block that no path leads to, if the blocks off the paths send nothing. -/
theorem joinAll_offPaths {send : BlockId → Outflow}
    (along : ∀ source, ∀ edge ∈ send source, ∃ kind, (edge.1, kind) ∈ graph.successors source)
    (silent : ∀ source, ¬graph.Reachable source → ∀ edge ∈ send source, edge.2 = .unreachable)
    {id : BlockId} (off : ¬graph.Reachable id) (table : SlotTable) (sources : List BlockId) :
    Store.joinAll table (arrivals send start sources id) = .unreachable := by
  have unreached : (Store.joinAll table (arrivals send start sources id)).isReachable = false := by
    rw [Store.isReachable_joinAll, List.any_eq_false]
    intro store member
    rcases mem_arrivals.mp member with ⟨source, _, sent⟩ | ⟨rfl, _⟩
    · obtain ⟨kind, edge⟩ := along source _ sent
      have offSource : ¬graph.Reachable source := fun before => off (.step before edge)
      have nothing : store = .unreachable := silent source offSource _ sent
      simp [nothing, Store.isReachable]
    · exact absurd .entry off
  cases isStore : Store.joinAll table (arrivals send start sources id) with
  | unreachable => rfl
  | reachable facts =>
      rw [isStore] at unreached
      cases unreached

end FlowGraph

namespace Comparison

variable {pair : Comparison} {context : Context} {graph : MeaningGraph} {start : Store}
  {sweep now before : Sweep} {session final later : Session} {order : List BlockId}

section Paths

/-- Nothing has come to the blocks that no path leads to. -/
def OnPaths (graph : MeaningGraph) (sweep : Sweep) : Prop :=
  ∀ id, ¬graph.Reachable id → (sweep.flow id).entry = .unreachable

/-- At the start no store has arrived anywhere. -/
theorem onPaths_start (graph : MeaningGraph) (count : Nat) : OnPaths graph (.start count) := by
  intro id _
  rw [Sweep.flow_start]
  rfl

/-- A sweep has sent stores along the edges of the graph. -/
theorem Known.along {table : SlotTable} (known : pair.Known context graph table sweep)
    (source : BlockId) :
    ∀ edge ∈ (sweep.flow source).outflow, ∃ kind, (edge.1, kind) ∈ graph.successors source := by
  intro edge member
  rcases known.cases source with unreached | ⟨block, early, found, sent⟩
  · rw [unreached] at member
    cases member
  · rw [← sent.outflow] at member
    rw [FlowGraph.successors, found]
    exact Block.mem_transfer member

variable (tracking : pair.Tracking graph)
include tracking

/-- Nothing arrives at a block that no path reaches. -/
theorem Known.offPaths {table : SlotTable} (known : pair.Known context graph table sweep)
    (onPaths : OnPaths graph sweep) (table' : SlotTable) (sources : Array (List BlockId))
    {id : BlockId} (off : ¬graph.Reachable id) :
    Store.joinAll table' (sweep.arriving start sources id) = .unreachable := by
  refine FlowGraph.joinAll_offPaths known.along (fun source offSource edge member => ?_)
    off table' _
  rcases known.cases source with unreached | ⟨block, early, found, sent⟩
  · rw [unreached] at member
    cases member
  · rw [← sent.outflow, onPaths source offSource] at member
    exact transfer_unreachable (tracking table block (Array.mem_of_getElem? found)) early edge member

/-- A visit sends stores along paths alone. -/
theorem visit_onPaths {sources : Array (List BlockId)}
    (known : pair.Known context graph session.slots sweep) (onPaths : OnPaths graph sweep)
    (id : Nat) :
    OnPaths graph (Sweep.visit context graph start sources sweep id session).1 := by
  cases found : graph.blocks[id]? with
  | none =>
      rw [visit_outside found]
      exact onPaths
  | some block =>
      have inside : id < sweep.flows.size := by
        rw [known.size]
        exact (Array.getElem?_eq_some_iff.mp found).1
      rw [visit_eq found]
      intro other off
      rw [Sweep.flow_setIfInBounds sweep inside]
      split
      · rename_i same
        subst same
        exact known.offPaths tracking onPaths _ sources off
      · exact onPaths other off

variable (startWithin : ∀ table, start.Within table)
include startWithin

variable (order) in
/-- Visits send stores along paths alone. -/
theorem visits_onPaths {sources : Array (List BlockId)}
    (known : pair.Known context graph session.slots sweep) (fits : pair.layout.Fits session.slots)
    (onPaths : OnPaths graph sweep) :
    OnPaths graph (order.foldlM (Sweep.visit context graph start sources) sweep session).1 := by
  induction order generalizing session sweep with
  | nil => exact onPaths
  | cons id rest ih =>
      have alone : pair.Alone (pair.sweeps context graph) session
          (Sweep.visit context graph start sources sweep id) :=
        visit_alone tracking known fits (startWithin _) id
      exact ih alone.fits alone.grows.fits (visit_onPaths tracking known onPaths id)

/-- A pass sends stores along paths alone. -/
theorem pass_onPaths {sources : Array (List BlockId)} {later : Session}
    (passed : pass context graph start sources order before session = (now, later))
    (known : pair.Known context graph session.slots before)
    (fits : pair.layout.Fits session.slots) (onPaths : OnPaths graph before) :
    OnPaths graph now := by
  have cleared := Silent.clearReturns.alone pair fits
  have knownCleared := (pair.sweeps context graph).grow cleared.grows.slots known
  have visits : order.foldlM (Sweep.visit context graph start sources)
      { before with changed := false } (Analysis.clearReturns session).2 = (now, later) := passed
  have onPathsCleared : OnPaths graph { before with changed := false } := onPaths
  have kept : OnPaths graph (order.foldlM (Sweep.visit context graph start sources)
      { before with changed := false } (Analysis.clearReturns session).2).1 :=
    visits_onPaths order tracking startWithin knownCleared.restart cleared.grows.fits onPathsCleared
  rwa [visits] at kept

/-- A solution leaves the blocks that no path leads to unreached. -/
theorem iterate_offPaths (more passes : Nat) (fits : pair.layout.Fits session.slots)
    (known : pair.Known context graph session.slots before) (onPaths : OnPaths graph before)
    {solution : Solution}
    (solved : Sweep.iterate context graph start graph.sources order more passes before session =
      (some solution, final))
    (converged : solution.converged = true) {id : BlockId} (off : ¬graph.Reachable id) :
    solution.entry id = .unreachable := by
  refine iterate_induct context graph start graph.sources order
    (motive := fun _ before session answer => pair.layout.Fits session.slots →
      pair.Known context graph session.slots before → OnPaths graph before →
      answer = (some solution, final) → solution.entry id = .unreachable)
    ?stopped ?settled ?exhausted ?again more passes before session fits known onPaths solved
  case stopped =>
    intro _ _ _ _ _ _ _ answer
    cases answer
  case settled =>
    intro _ before session now after passes _ passed _ fits known onPaths answer
    cases answer
    have entry : Solution.entry ⟨now.entries, passes, true⟩ id = (now.flow id).entry :=
      Sweep.getD_entries now id
    rw [entry]
    exact pass_onPaths tracking startWithin passed known fits onPaths id off
  case exhausted =>
    intro _ _ _ _ _ _ _ _ _ _ _ answer
    cases answer
    cases converged
  case again =>
    intro _ before session now after _ _ passed _ ih fits known onPaths answer
    obtain ⟨grows, knownNow⟩ := known.pass tracking startWithin fits passed
    exact ih grows.fits knownNow (pass_onPaths tracking startWithin passed known fits onPaths) answer

end Paths

section Solved

variable (tracking : pair.Tracking graph)
include tracking

/-- More slots do not unsettle a block. -/
theorem Settled.grow {table : SlotTable} {id : BlockId}
    (settled : pair.Settled context graph start table now id)
    (known : pair.Known context graph table now) (startWithin : ∀ table, start.Within table)
    {larger : SlotTable} (extended : table.Extends larger) :
    pair.Settled context graph start larger now id := by
  obtain ⟨early, sweep, knownEarly, found, same, entry⟩ := settled.visited
  have arrives := knownEarly.arriving_within tracking (startWithin early) graph.sources id
  refine ⟨early, sweep, knownEarly, found.trans extended, fun other => ?_, ?_⟩
  · exact (same other).extend extended ((knownEarly.entry_within tracking other).extend found)
      (known.entry_within tracking other)
  · exact entry.extend extended ((Store.within_joinAll arrives).extend found)
      (known.entry_within tracking id)

/-- A stable solution stays stable in every session that goes on from it. -/
theorem Stable.grow {solution : Solution}
    (stable : pair.Stable context graph start order final solution)
    (startWithin : ∀ table, start.Within table) (fits : pair.layout.Fits later.slots)
    (extended : final.slots.Extends later.slots) :
    pair.Stable context graph start order later solution := by
  obtain ⟨now, known, entries, settled⟩ := stable.found
  exact ⟨fits, now, (pair.sweeps context graph).grow extended known, entries,
    fun id member inside => (settled id member inside).grow tracking known startWithin extended⟩

/-- The blocks send nothing from the entries of blocks that no path leads to. -/
theorem resent_offPaths {entries : BlockId → Store}
    (offPaths : ∀ id, ¬graph.Reachable id → entries id = .unreachable) {source : BlockId}
    (off : ¬graph.Reachable source) :
    ∀ edge ∈ graph.resent context entries final source, edge.2 = .unreachable := by
  intro edge member
  rw [FlowGraph.resent] at member
  cases found : graph.blocks[source]? with
  | none =>
      rw [found] at member
      cases member
  | some block =>
      simp only [found, offPaths source off] at member
      exact transfer_unreachable (tracking final.slots block (Array.mem_of_getElem? found)) final edge
        member

/-- The equations hold off the paths, because nothing comes there. -/
theorem equationsHold_of_paths {entries : BlockId → Store}
    (offPaths : ∀ id, ¬graph.Reachable id → entries id = .unreachable)
    (onPaths : ∀ id : Nat, graph.Reachable id → id < graph.blocks.size →
      Store.Matches .exact final.slots (entries id) (Store.joinAll final.slots
        (arrivals (graph.resent context entries final) start (List.range graph.blocks.size) id))) :
    graph.EquationsHold context start final entries := by
  intro id inside
  rw [Store.equivalent_iff_matches]
  by_cases onPath : graph.Reachable id
  · exact onPaths id onPath inside
  · have nothing : Store.joinAll final.slots (arrivals (graph.resent context entries final) start
        (List.range graph.blocks.size) id) = .unreachable :=
      FlowGraph.joinAll_offPaths (fun source edge sent => graph.mem_resent sent)
        (fun source off => resent_offPaths tracking offPaths off) onPath _ _
    rw [offPaths id onPath, nothing]
    exact .refl _

section Converged

variable (startWithin : ∀ table, start.Within table)
  (covers : ∀ id : Nat, graph.Reachable id → id < graph.blocks.size → id ∈ order) (fits : pair.layout.Fits session.slots)
  {solution : Solution} {more : Nat}
  (solved : Sweep.iterate context graph start graph.sources order more 0
    (.start graph.blocks.size) session = (some solution, final))
  (converged : solution.converged = true)
include startWithin covers fits solved converged

/-- The entries that the passes converge to solve the equations, if the passes visit all blocks that
a path leads to. The slots may be more than the passes found. -/
theorem iterate_solves (exact : pair.bound = .exact) (fitsLater : pair.layout.Fits later.slots)
    (extended : final.slots.Extends later.slots) :
    graph.EquationsHold context start later solution.entry := by
  have stable := (iterate_stable tracking startWithin more 0 fits (known_start _) solved
    converged).grow tracking startWithin fitsLater extended
  refine equationsHold_of_paths tracking (fun id off => ?_) fun id onPath inside =>
    stable.entry_matches tracking startWithin exact (covers id onPath inside) inside
  exact iterate_offPaths tracking startWithin more 0 fits (known_start _) (onPaths_start _ _) solved
    converged off

end Converged

section Absorbing

variable (upper : pair.bound = .upper)
include upper

/-- What a block sent during a pass is below what it sends once more. -/
theorem Known.resent_above (known : pair.Known context graph final.slots sweep)
    (fits : pair.layout.Fits final.slots) {entries : BlockId → Store}
    (within : ∀ id, (entries id).Within final.slots)
    (below : ∀ id, Store.Below final.slots (sweep.flow id).entry (entries id)) (id : BlockId) :
    ∀ edge ∈ (sweep.flow id).outflow, edge.2.isReachable = true →
      ∃ store, (edge.1, store) ∈ graph.resent context entries final id ∧
        Store.Below final.slots edge.2 store := by
  intro edge member reachable
  rcases known.cases id with unreached | ⟨block, early, found, sent⟩
  · rw [unreached] at member
    cases member
  · rw [FlowGraph.resent, found]
    exact sent.mono upper tracking (Array.mem_of_getElem? found) fits (within id) (below id) edge
      member reachable

variable (startWithin : ∀ table, start.Within table)
include startWithin

/-- The entry of a block that the passes visit is below what comes to the block. -/
theorem Stable.entry_below {solution : Solution}
    (stable : pair.Stable context graph start order final solution) {id : Nat} (visits : id ∈ order)
    (inside : id < graph.blocks.size) :
    Store.Below final.slots (solution.entry id) (Store.joinAll final.slots
      (arrivals (graph.resent context solution.entry final) start
        (List.range graph.blocks.size) id)) := by
  obtain ⟨table, sweep, known, extended, knownFinal, within, same, entry⟩ :=
    stable.visited tracking visits inside
  have arrives := known.arriving_within tracking (startWithin _) graph.sources id
  refine entry.symm.below.trans (Store.joinAll_mono
    (fun store member => (arrives store member).agrees extended)
    (fun store _ => Store.agrees_refl store _) fun store member reachable => ?_)
  rcases mem_arrivals.mp member with ⟨source, _, sent⟩ | ⟨atEntry, rfl⟩
  · obtain ⟨again, inAgain, below⟩ := knownFinal.resent_above tracking upper stable.fits within
      (fun other => (same other).below) source _ sent reachable
    obtain ⟨kind, edge⟩ := graph.mem_resent inAgain
    have isSource := List.mem_range.mpr (FlowGraph.inside_of_edge edge)
    exact ⟨again, mem_arrivals.mpr (Or.inl ⟨source, isSource, inAgain⟩), below⟩
  · exact ⟨_, mem_arrivals.mpr (Or.inr ⟨atEntry, rfl⟩), .refl _⟩

/-- Converged entries that absorb what the blocks send from them solve the equations. -/
theorem iterate_solves_of_absorbed (covers : ∀ id : Nat, graph.Reachable id → id < graph.blocks.size → id ∈ order)
    (fits : pair.layout.Fits session.slots) {solution : Solution} {more : Nat}
    (solved : Sweep.iterate context graph start graph.sources order more 0
      (.start graph.blocks.size) session = (some solution, final))
    (converged : solution.converged = true)
    (absorbed : graph.AbsorbedBy context start final solution.entry) :
    graph.EquationsHold context start final solution.entry := by
  have stable := iterate_stable tracking startWithin more 0 fits (known_start _) solved converged
  refine equationsHold_of_paths tracking (fun id off => ?_) fun id onPath inside => ?_
  · exact iterate_offPaths tracking startWithin more 0 fits (known_start _) (onPaths_start _ _)
      solved converged off
  · refine (stable.entry_below tracking upper startWithin (covers id onPath inside) inside).antisymm ?_
    exact Store.joinAll_below (fun store _ => Store.agrees_refl store _) fun store arrives =>
      absorbed.above inside arrives

end Absorbing

end Solved

end Comparison

end NullFlow
