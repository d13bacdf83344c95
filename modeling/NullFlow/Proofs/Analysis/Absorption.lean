import NullFlow.Proofs.Analysis.Convergence
import NullFlow.Proofs.Analysis.Equations
/-!
Entries that take in whatever the blocks send from them bound the solution of the solver. Every pass
starts below such entries and stays below them, because a block that runs from a lower entry sends
lower stores. The entries need not come from the solver, and they need not be the best ones.
-/

namespace NullFlow

/-- Joining the entry of a block with what all blocks send to it from their entries, and with the
start if the graph is entered there, does not change the entry. -/
def FlowGraph.AbsorbedBy (graph : MeaningGraph) (context : Context) (start : Store)
    (session : Session) (entries : BlockId → Store) : Prop :=
  ∀ id : Nat, id < graph.blocks.size → Store.equivalent session.slots
    (Store.joinAll session.slots (entries id ::
      arrivals (graph.resent context entries session) start (List.range graph.blocks.size) id))
    (entries id) = true

/-- Absorbing entries are above every store that comes to them. -/
theorem FlowGraph.AbsorbedBy.above {graph : MeaningGraph} {context : Context} {start : Store}
    {session : Session} {entries : BlockId → Store}
    (absorbed : graph.AbsorbedBy context start session entries) {id : Nat}
    (inside : id < graph.blocks.size) {store : Store}
    (arrives : store ∈ arrivals (graph.resent context entries session) start
      (List.range graph.blocks.size) id) :
    Store.Below session.slots store (entries id) := by
  have same := Store.equivalent_iff_matches.mp (absorbed id inside)
  exact (Store.below_joinAll (fun other _ => Store.agrees_refl other _)
    (List.mem_cons_of_mem _ arrives)).trans same.below

namespace Comparison

variable {pair : Comparison} {context : Context} {graph : MeaningGraph} {start : Store}
  {order : List BlockId} {sweep before : Sweep} {session final : Session}
  {entries : BlockId → Store}

/-- The entry of every block is below a given one. -/
def Bounded (target : SlotTable) (entries : BlockId → Store) (sweep : Sweep) : Prop :=
  ∀ id : Nat, Store.Below target (sweep.flow id).entry (entries id)

/-- At the start nothing is reached, so every bound holds. -/
theorem bounded_start (target : SlotTable) (entries : BlockId → Store) (count : Nat) :
    Bounded target entries (.start count) := by
  intro id
  rw [Sweep.flow_start]
  exact Store.unreachable_below _

variable (upper : pair.bound = .upper) (tracking : pair.Tracking graph)
  (startWithin : ∀ table, start.Within table) (fitsFinal : pair.layout.Fits final.slots)
  (within : ∀ id, (entries id).Within final.slots)
  (absorbed : graph.AbsorbedBy context start final entries)
include upper tracking startWithin fitsFinal within absorbed

/-- Below absorbing entries, what arrives at a block is below its entry. -/
theorem Known.arriving_bounded (known : pair.Known context graph session.slots sweep)
    (extended : session.slots.Extends final.slots) (bounded : Bounded final.slots entries sweep)
    {id : Nat} (inside : id < graph.blocks.size) :
    Store.Below final.slots
      (Store.joinAll session.slots (sweep.arriving start graph.sources id)) (entries id) := by
  have knownFinal := (pair.sweeps context graph).grow extended known
  have arrivesWithin := known.arriving_within tracking (startWithin _) graph.sources id
  refine Store.joinAll_below (fun store member => (arrivesWithin store member).agrees extended)
    fun store member => ?_
  rcases mem_arrivals.mp member with ⟨source, _, inOutflow⟩ | ⟨atEntry, rfl⟩
  · cases reachable : store.isReachable with
    | false => exact Store.below_of_not_reachable reachable
    | true =>
        rcases knownFinal.cases source with unreached | ⟨block, early, found, sent⟩
        · rw [unreached] at inOutflow
          cases inOutflow
        · obtain ⟨again, inAgain, below⟩ := sent.mono upper tracking
            (Array.mem_of_getElem? found) fitsFinal (within source) (bounded source) _ inOutflow
            reachable
          have isBlock : source < graph.blocks.size := (Array.getElem?_eq_some_iff.mp found).1
          have resent : (id, again) ∈ graph.resent context entries final source := by
            rw [FlowGraph.resent, found]
            exact inAgain
          exact below.trans (absorbed.above inside
            (mem_arrivals.mpr (Or.inl ⟨source, List.mem_range.mpr isBlock, resent⟩)))
  · exact absorbed.above inside (mem_arrivals.mpr (Or.inr ⟨atEntry, rfl⟩))

/-- A visit keeps all entries below the absorbing ones. -/
theorem visit_bounded (known : pair.Known context graph session.slots sweep)
    (fits : pair.layout.Fits session.slots) (bounded : Bounded final.slots entries sweep) (id : Nat)
    (extended : (Sweep.visit context graph start graph.sources sweep id
      session).2.slots.Extends final.slots) :
    Bounded final.slots entries
      (Sweep.visit context graph start graph.sources sweep id session).1 := by
  cases found : graph.blocks[id]? with
  | none =>
      rw [visit_outside found]
      exact bounded
  | some block =>
      have alone : pair.Alone (pair.sweeps context graph) session
          (Sweep.visit context graph start graph.sources sweep id) :=
        visit_alone tracking known fits (startWithin _) id
      have isBlock : id < graph.blocks.size := (Array.getElem?_eq_some_iff.mp found).1
      have raised := known.arriving_bounded upper tracking startWithin fitsFinal within absorbed
        (alone.grows.slots.trans extended) bounded isBlock
      rw [visit_eq found]
      intro other
      rw [Sweep.flow_setIfInBounds sweep (known.size ▸ isBlock)]
      by_cases same : other = id
      · subst same
        rw [if_pos rfl]
        exact raised
      · rw [if_neg same]
        exact bounded other

variable (order) in
/-- Visits stay under a bound that absorbs what every block sends. -/
theorem visits_bounded (known : pair.Known context graph session.slots sweep)
    (fits : pair.layout.Fits session.slots) (bounded : Bounded final.slots entries sweep)
    (extended : (order.foldlM (Sweep.visit context graph start graph.sources) sweep
      session).2.slots.Extends final.slots) :
    Bounded final.slots entries
      (order.foldlM (Sweep.visit context graph start graph.sources) sweep session).1 := by
  induction order generalizing session sweep with
  | nil => exact bounded
  | cons id rest ih =>
      have alone : pair.Alone (pair.sweeps context graph) session
          (Sweep.visit context graph start graph.sources sweep id) :=
        visit_alone tracking known fits (startWithin _) id
      have aloneRest : pair.Alone (pair.sweeps context graph)
          (Sweep.visit context graph start graph.sources sweep id session).2
          (rest.foldlM (Sweep.visit context graph start graph.sources)
            (Sweep.visit context graph start graph.sources sweep id session).1) :=
        .foldlM alone.grows.fits alone.fits fun other _ _ _ grows known =>
          visit_alone tracking known grows.fits (startWithin _) other
      have boundedHead := visit_bounded upper tracking startWithin fitsFinal within absorbed known
        fits bounded id (aloneRest.grows.slots.trans extended)
      exact ih alone.fits alone.grows.fits boundedHead extended

/-- A pass stays under a bound that absorbs what every block sends. -/
theorem pass_bounded {now : Sweep} {later : Session}
    (passed : pass context graph start graph.sources order before session = (now, later))
    (known : pair.Known context graph session.slots before)
    (fits : pair.layout.Fits session.slots) (bounded : Bounded final.slots entries before)
    (extended : later.slots.Extends final.slots) : Bounded final.slots entries now := by
  have cleared := Silent.clearReturns.alone pair fits
  have knownCleared := (pair.sweeps context graph).grow cleared.grows.slots known
  have visits : order.foldlM (Sweep.visit context graph start graph.sources)
      { before with changed := false } (Analysis.clearReturns session).2 = (now, later) := passed
  have boundedCleared : Bounded final.slots entries { before with changed := false } := bounded
  have kept := visits_bounded order upper tracking startWithin fitsFinal within absorbed
    knownCleared.restart cleared.grows.fits boundedCleared (by rwa [visits])
  rwa [visits] at kept

/-- The passes converge below the absorbing entries. The slots of these may be more. -/
theorem iterate_bounded (later passes : Nat) (fits : pair.layout.Fits session.slots)
    (known : pair.Known context graph session.slots before)
    (bounded : Bounded final.slots entries before) {solution : Solution} {ended : Session}
    (solved : Sweep.iterate context graph start graph.sources order later passes before session =
      (some solution, ended))
    (extended : ended.slots.Extends final.slots) (converged : solution.converged = true)
    (id : BlockId) : Store.Below final.slots (solution.entry id) (entries id) := by
  refine iterate_induct context graph start graph.sources order
    (motive := fun _ before session answer => pair.layout.Fits session.slots →
      pair.Known context graph session.slots before → Bounded final.slots entries before →
      answer = (some solution, ended) → Store.Below final.slots (solution.entry id) (entries id))
    ?stopped ?settled ?exhausted ?again later passes before session fits known bounded solved
  case stopped =>
    intro _ _ _ _ _ _ _ answer
    cases answer
  case settled =>
    intro _ before session now after passes _ passed _ fits known bounded answer
    cases answer
    have boundedNow := pass_bounded upper tracking startWithin fitsFinal within absorbed passed
      known fits bounded extended
    have entry : Solution.entry ⟨now.entries, passes, true⟩ id = (now.flow id).entry :=
      Sweep.getD_entries now id
    exact entry ▸ boundedNow id
  case exhausted =>
    intro _ _ _ _ _ _ _ _ _ _ _ answer
    cases answer
    cases converged
  case again =>
    intro fewer before session now after passes _ passed _ ih fits known bounded answer
    obtain ⟨grows, knownNow⟩ := known.pass tracking startWithin fits passed
    have rest : pair.Alone solutions after
        (Sweep.iterate context graph start graph.sources order fewer passes now) :=
      iterate_alone tracking startWithin fewer passes grows.fits knownNow
    have found := rest.grows.slots
    rw [answer] at found
    exact ih grows.fits knownNow (pass_bounded upper tracking startWithin fitsFinal within absorbed
      passed known fits bounded (found.trans extended)) answer

omit fitsFinal in
/-- A converged solution is below all entries that absorb what the blocks send from them. -/
theorem solve_bounded (fits : pair.layout.Fits session.slots) {solution : Solution}
    (solved : graph.solve context start session = (some solution, final))
    (converged : solution.converged = true) (id : BlockId) :
    Store.Below final.slots (solution.entry id) (entries id) := by
  have grows := (solve_alone context tracking startWithin fits).grows
  rw [solved] at grows
  exact iterate_bounded upper tracking startWithin grows.fits within absorbed _ 0 fits
    (known_start _) (bounded_start _ _ _) solved (.refl _) converged id

end Comparison
end NullFlow
