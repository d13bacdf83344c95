import Mathlib.Algebra.Order.BigOperators.Group.List
import Mathlib.Algebra.Order.Group.Nat
import Mathlib.Algebra.Order.Ring.Nat
import NullFlow.Proofs.Analysis.Meanings
/-!
The solver of a tracked graph reaches its solution in a bounded number of passes. Every entry only
rises from visit to visit, and a pass that changes an entry makes the entries weigh more.
-/

namespace NullFlow.Comparison

variable {pair : Comparison} {context : Context} {graph : MeaningGraph} {start : Store}
  {sources : Array (List BlockId)} {target : SlotTable} {sweep before middle after : Sweep}
  {session : Session}

section Rising

/-- Every entry is below what arrives at the block now. -/
def Rising (target : SlotTable) (start : Store) (sources : Array (List BlockId)) (sweep : Sweep) :
    Prop :=
  ∀ id, Store.Below target (sweep.flow id).entry
    (Store.joinAll target (sweep.arriving start sources id))

/-- The entries rise, and what counts as a change makes one of the entries weigh more. -/
structure Rises (target : SlotTable) (count : Nat) (before after : Sweep) : Prop where
  below : ∀ id, Store.Below target (before.flow id).entry (after.flow id).entry
  strict : after.changed = true → before.changed = true ∨ ∃ id < count,
    (before.flow id).entry.weight target < (after.flow id).entry.weight target

theorem Rises.refl (count : Nat) (sweep : Sweep) : Rises target count sweep sweep :=
  ⟨fun _ => .refl _, Or.inl⟩

theorem Rises.trans {count : Nat} (early : Rises target count before middle)
    (late : Rises target count middle after) : Rises target count before after where
  below id := (early.below id).trans (late.below id)
  strict changed := by
    rcases late.strict changed with changed | ⟨id, inside, heavier⟩
    · refine (early.strict changed).imp_right fun ⟨id, inside, heavier⟩ => ⟨id, inside, ?_⟩
      exact Nat.lt_of_lt_of_le heavier (late.below id).weight_le
    · exact Or.inr ⟨id, inside, Nat.lt_of_le_of_lt (early.below id).weight_le heavier⟩

end Rising

section Visit

variable (upper : pair.bound = .upper) (tracking : pair.Tracking graph)
include upper tracking

/-- A block that is run again from a higher entry sends higher stores. -/
theorem Sent.mono {block : Block (Simple Meaning) Meaning} (member : block ∈ graph.blocks)
    {old : BlockFlow} {early : Session} (sent : pair.Sent context session.slots block old early)
    (fits : pair.layout.Fits session.slots) {entry : Store} (within : entry.Within session.slots)
    (below : Store.Below session.slots old.entry entry) :
    ∀ edge ∈ old.outflow, edge.2.isReachable = true →
      ∃ store, (edge.1, store) ∈ (block.transfer context entry session).1 ∧
        Store.Below session.slots edge.2 store := by
  intro edge inOld reachable
  cases isEntry : old.entry with
  | unreachable =>
      rw [← sent.outflow, isEntry] at inOld
      rw [transfer_unreachable (tracking session.slots block member) early edge inOld] at reachable
      cases reachable
  | reachable facts =>
      have same : Store.Matches pair.bound session.slots old.entry entry := by
        rw [upper]
        exact below.matches_upper (by rw [isEntry]; rfl)
      obtain ⟨store, inNew, matching⟩ :=
        outflows_left (sent.again tracking member fits within same) edge inOld
      exact ⟨store, inNew, matching.below⟩

omit upper tracking in
/-- A store that weighs no more than before counts as unchanged. -/
theorem heavier_of_changed {table : SlotTable} {old new : Store} (extended : table.Extends target)
    (withinOld : old.Within table) (withinNew : new.Within table)
    (below : Store.Below target old new) (changed : Store.equivalent table new old = false) :
    old.weight target < new.weight target := by
  by_contra light
  have same := below.same_of_weight (withinOld.extend extended) (Nat.le_of_not_lt light)
  have equivalent := Store.equivalent_iff_matches.mpr
    (same.restrict extended withinOld withinNew).symm
  rw [changed] at equivalent
  cases equivalent

variable (startWithin : ∀ table, start.Within table)
include startWithin

/-- What arrives rises when a block is run again from a higher entry. -/
theorem arriving_rises {block : Block (Simple Meaning) Meaning} {id : Nat}
    (found : graph.blocks[id]? = some block)
    (known : pair.Known context graph session.slots sweep) (fits : pair.layout.Fits session.slots)
    (extended : session.slots.Extends target)
    (raised : Store.Below target (sweep.flow id).entry
      (visited context start sources sweep id block session).entry)
    (changes : ∀ other, after.flow other =
      if other = id then visited context start sources sweep id block session
      else sweep.flow other) (other : Nat) :
    Store.Below target (Store.joinAll target (sweep.arriving start sources other))
      (Store.joinAll target (after.arriving start sources other)) := by
  have within := known.arriving_within tracking (startWithin _) sources other
  refine Store.joinAll_mono (fun store _ => Store.agrees_refl store _)
    (fun store _ => Store.agrees_refl store _) fun store member reachable => ?_
  rcases mem_arrivals.mp member with ⟨source, isSource, inOutflow⟩ | ⟨atEntry, rfl⟩
  · by_cases same : source = id
    · subst same
      rcases known.sent source block found with unreached | ⟨early, sent⟩
      · rw [unreached] at inOutflow
        cases inOutflow
      · have sentNow := known.visited tracking sources fits (startWithin _) source block
        obtain ⟨later', inNew, below⟩ := sent.mono upper tracking (Array.mem_of_getElem? found) fits
          sentNow.within (raised.restrict extended sentNow.within) _ inOutflow reachable
        refine ⟨later', mem_arrivals.mpr (Or.inl ⟨source, isSource, ?_⟩),
          below.extend extended (within store member)⟩
        rw [changes, if_pos rfl]
        exact inNew
    · refine ⟨store, mem_arrivals.mpr (Or.inl ⟨source, isSource, ?_⟩), .refl store⟩
      rw [changes, if_neg same]
      exact inOutflow
  · exact ⟨_, mem_arrivals.mpr (Or.inr ⟨atEntry, rfl⟩), .refl _⟩

/-- A visit raises the entry of the block, and with it what arrives elsewhere. -/
theorem visit_rises (known : pair.Known context graph session.slots sweep)
    (fits : pair.layout.Fits session.slots) (rising : Rising target start sources sweep) (id : Nat)
    (extended : (Sweep.visit context graph start sources sweep id session).2.slots.Extends target) :
    Rising target start sources (Sweep.visit context graph start sources sweep id session).1 ∧
      Rises target graph.blocks.size sweep
        (Sweep.visit context graph start sources sweep id session).1 := by
  cases found : graph.blocks[id]? with
  | none =>
      rw [visit_outside found]
      exact ⟨rising, .refl _ _⟩
  | some block =>
      have alone : pair.Alone (pair.sweeps context graph) session
          (Sweep.visit context graph start sources sweep id) :=
        visit_alone tracking known fits (startWithin _) id
      have larger := alone.grows.slots.trans extended
      have inside : id < sweep.flows.size := by
        rw [known.size]
        exact (Array.getElem?_eq_some_iff.mp found).1
      have within := known.arriving_within tracking (startWithin _) sources id
      have raised : Store.Below target (sweep.flow id).entry
          (visited context start sources sweep id block session).entry := by
        refine (rising id).trans (Store.joinAll_mono (fun store _ => Store.agrees_refl store _)
          (fun store member => (within store member).agrees larger) fun store member _ => ?_)
        exact ⟨store, member, .refl store⟩
      rw [visit_eq found]
      have changes := Sweep.flow_setIfInBounds sweep inside
        (visited context start sources sweep id block session) (sweep.changed ||
          !Store.equivalent session.slots
            (visited context start sources sweep id block session).entry (sweep.flow id).entry)
      have arrives := arriving_rises upper tracking startWithin found known fits larger raised changes
      refine ⟨fun other => ?_, fun other => ?_, fun changed => ?_⟩
      · rw [changes]
        by_cases same : other = id
        · subst same
          rw [if_pos rfl]
          refine .trans ?_ (arrives other)
          exact Store.joinAll_mono (fun store member => (within store member).agrees larger)
            (fun store _ => Store.agrees_refl store _) fun store member _ =>
            ⟨store, member, .refl store⟩
        · rw [if_neg same]
          exact (rising other).trans (arrives other)
      · rw [changes]
        by_cases same : other = id
        · subst same
          rw [if_pos rfl]
          exact raised
        · rw [if_neg same]
          exact .refl _
      · rcases Bool.or_eq_true_iff.mp changed with changed | changed
        · exact Or.inl changed
        · refine Or.inr ⟨id, known.size ▸ inside, ?_⟩
          rw [changes, if_pos rfl]
          exact heavier_of_changed larger (known.entry_within tracking id)
            (Store.within_joinAll within) raised (by simpa using changed)

end Visit

section Pass

variable {order : List BlockId}

/-- How much all entries leave open. -/
def potential (target : SlotTable) (count : Nat) (sweep : Sweep) : Nat :=
  ((List.range count).map fun id => (sweep.flow id).entry.weight target).sum

/-- The potential of a sweep has a bound: every block can rise once for every slot, and once to be
reached. -/
theorem potential_le (target : SlotTable) (count : Nat) (sweep : Sweep) :
    potential target count sweep ≤ count * (target.size + 1) := by
  have bounded := List.sum_le_card_nsmul
    ((List.range count).map fun id => (sweep.flow id).entry.weight target) (target.size + 1)
    (fun weight member => by
      obtain ⟨id, _, rfl⟩ := List.mem_map.mp member
      exact Store.weight_le target _)
  simpa [potential] using bounded

/-- A sweep that changes something has a larger potential. -/
theorem Rises.potential_lt {count : Nat} (rises : Rises target count before after)
    (unchanged : before.changed = false) (changed : after.changed = true) :
    potential target count before < potential target count after := by
  rcases rises.strict changed with impossible | ⟨id, inside, heavier⟩
  · rw [unchanged] at impossible
    cases impossible
  · exact List.sum_lt_sum _ _ (fun id _ => (rises.below id).weight_le)
      ⟨id, List.mem_range.mpr inside, heavier⟩

variable (upper : pair.bound = .upper) (tracking : pair.Tracking graph)
  (startWithin : ∀ table, start.Within table)
include upper tracking startWithin

variable (order) in
/-- Visits only let entries rise. -/
theorem visits_rise (known : pair.Known context graph session.slots sweep)
    (fits : pair.layout.Fits session.slots) (rising : Rising target start sources sweep)
    (extended : (order.foldlM (Sweep.visit context graph start sources) sweep
      session).2.slots.Extends target) :
    Rising target start sources
        (order.foldlM (Sweep.visit context graph start sources) sweep session).1 ∧
      Rises target graph.blocks.size sweep
        (order.foldlM (Sweep.visit context graph start sources) sweep session).1 := by
  induction order generalizing session sweep with
  | nil => exact ⟨rising, .refl _ _⟩
  | cons id rest ih =>
      have alone : pair.Alone (pair.sweeps context graph) session
          (Sweep.visit context graph start sources sweep id) :=
        visit_alone tracking known fits (startWithin _) id
      have aloneRest : pair.Alone (pair.sweeps context graph)
          (Sweep.visit context graph start sources sweep id session).2
          (rest.foldlM (Sweep.visit context graph start sources)
            (Sweep.visit context graph start sources sweep id session).1) :=
        .foldlM alone.grows.fits alone.fits fun other _ _ _ grows known =>
          visit_alone tracking known grows.fits (startWithin _) other
      obtain ⟨risingHead, rises⟩ := visit_rises upper tracking startWithin known fits rising id
        (aloneRest.grows.slots.trans extended)
      obtain ⟨risingRest, risesRest⟩ := ih alone.fits alone.grows.fits risingHead extended
      exact ⟨risingRest, rises.trans risesRest⟩

/-- A pass raises the entries. -/
theorem pass_rises {now : Sweep} {later : Session}
    (passed : pass context graph start sources order before session = (now, later))
    (known : pair.Known context graph session.slots before)
    (fits : pair.layout.Fits session.slots) (rising : Rising target start sources before)
    (extended : later.slots.Extends target) :
    Rising target start sources now ∧
      Rises target graph.blocks.size { before with changed := false } now := by
  have cleared := Silent.clearReturns.alone pair fits
  have knownCleared := (pair.sweeps context graph).grow cleared.grows.slots known
  have visits : order.foldlM (Sweep.visit context graph start sources)
      { before with changed := false } (Analysis.clearReturns session).2 = (now, later) := passed
  have risingCleared : Rising target start sources { before with changed := false } := rising
  have rises := visits_rise order upper tracking startWithin knownCleared.restart cleared.grows.fits
    risingCleared (by rwa [visits])
  rwa [visits] at rises

/-- If the passes left are as many as the entries may still rise, the solver finds a solution. -/
theorem iterate_converges (sameStop : context.token.stops = pair.stopRequested)
    (later passes : Nat) (known : pair.Known context graph session.slots before)
    (fits : pair.layout.Fits session.slots) (rising : Rising target start sources before)
    (running : (session.cancelled || pair.stopRequested) = false)
    (extended : (Sweep.iterate context graph start sources order later passes before
      session).2.slots.Extends target)
    (enough : graph.blocks.size * (target.size + 1) ≤
      potential target graph.blocks.size before + later) :
    ∃ solution, (Sweep.iterate context graph start sources order later passes before session).1 =
      some solution ∧ solution.converged = true := by
  refine iterate_induct context graph start sources order
    (motive := fun later before session answer => pair.Known context graph session.slots before →
      pair.layout.Fits session.slots → Rising target start sources before →
      (session.cancelled || pair.stopRequested) = false → answer.2.slots.Extends target →
      graph.blocks.size * (target.size + 1) ≤ potential target graph.blocks.size before + later →
      ∃ solution, answer.1 = some solution ∧ solution.converged = true)
    ?stopped ?settled ?exhausted ?again later passes before session known fits rising running
    extended enough
  case stopped =>
    intro _ _ session stopped _ _ _ running
    rw [Session.mustStop_eq_false (sameStop ▸ running)] at stopped
    cases stopped
  case settled =>
    intros
    exact ⟨_, rfl, rfl⟩
  case exhausted =>
    intro before session now later _ _ passed changed known fits rising running extended enough
    obtain ⟨_, rises⟩ := pass_rises upper tracking startWithin passed known fits rising extended
    have more : potential target graph.blocks.size before <
        potential target graph.blocks.size now := rises.potential_lt rfl changed
    have most := potential_le target graph.blocks.size now
    omega
  case again =>
    intro fewer before session now later passes _ passed changed ih known fits rising running
      extended enough
    obtain ⟨grows, knownNow⟩ := known.pass tracking startWithin fits passed
    have rest : pair.Alone solutions later
        (Sweep.iterate context graph start sources order fewer passes now) :=
      iterate_alone tracking startWithin fewer passes grows.fits knownNow
    obtain ⟨risingNow, rises⟩ := pass_rises upper tracking startWithin passed known fits rising
      (rest.grows.slots.trans extended)
    have more : potential target graph.blocks.size before <
        potential target graph.blocks.size now := rises.potential_lt rfl changed
    refine ih knownNow grows.fits risingNow ?_ extended (by omega)
    rw [grows.cancelled running, (Bool.or_eq_false_iff.mp running).2]
    rfl

/-- The analysis of a graph converges if it may make as many passes as the entries may rise. -/
theorem analyze_converges (sameStop : context.token.stops = pair.stopRequested)
    (fits : pair.layout.Fits session.slots)
    (running : (session.cancelled || pair.stopRequested) = false)
    (enough : graph.blocks.size * ((graph.analyze context start session).2.slots.size + 1) + 1 ≤
      context.options.maxIterations) :
    ∃ solution, (graph.analyze context start session).1 = some solution ∧
      solution.converged = true := by
  obtain ⟨same, grows⟩ := analyze_of_solve tracking startWithin fits
  rw [same]
  refine iterate_converges upper tracking startWithin sameStop _ 0 (known_start _) fits
    (fun id => ?_) running grows.slots (by omega)
  rw [Sweep.flow_start]
  exact Store.unreachable_below _

end Pass

/-- The empty table fits every layout. -/
theorem fits_empty (layout : Layout) : layout.Fits .empty where
  declared slot info found := by simp [SlotTable.empty] at found
  older slot info parent found := by simp [SlotTable.empty] at found
  distinct slot other info info' found := by simp [SlotTable.empty] at found

end NullFlow.Comparison

namespace NullFlow.Method

open Comparison

variable {method : Method} {layout : Layout} {lenient : Bool}

/-- The graph of a flat method holds meanings that keep to outlines. -/
theorem graph_tracking (flat : method.isFlat layout lenient = true) (classes : ClassTable)
    (options : Options) (token : CancellationToken) {bound : Bound}
    (upper : lenient = true → bound = .upper) :
    (ofLayout layout bound token.stops).Tracking
      (method.graph classes options token) := by
  obtain ⟨flatThis, flatCode⟩ := Bool.and_eq_true_iff.mp flat
  exact Comparison.graph_tracking flatThis rfl upper flatCode

/-- The analysis of a flat method converges if it may make enough passes. -/
theorem analyze_converges (flat : method.isFlat layout true = true) (classes : ClassTable)
    (options : Options)
    (enough : (method.graph classes options false).blocks.size *
      ((method.run classes options false).2.slots.size + 1) + 1 ≤ options.maxIterations) :
    ∃ analysis, method.analyze classes options false = some analysis ∧
      analysis.converged = true := by
  have tracking : (ofLayout layout .upper false).Tracking (method.graph classes options false) :=
    graph_tracking flat classes options false fun _ => rfl
  have fits : layout.Fits (method.session options).slots := fits_empty layout
  have grows := (analyze_alone (method.context classes options false) tracking Store.within_entry
    fits).grows
  obtain ⟨solution, solved, converged⟩ : ∃ solution,
      (method.run classes options false).1 = some solution ∧ solution.converged = true :=
    Comparison.analyze_converges rfl tracking Store.within_entry rfl fits rfl enough
  have running : (method.run classes options false).2.mustStop false = false :=
    Session.mustStop_eq_false (Bool.or_eq_false_iff.mpr ⟨grows.cancelled rfl, rfl⟩)
  unfold analyze
  cases isRun : method.run classes options false with
  | mk solution? after =>
      rw [isRun] at solved running
      obtain rfl : solution? = some solution := solved
      change after.mustStop _ = false at running
      simp [MethodAnalysis.ofRun?, running, converged]

end NullFlow.Method
