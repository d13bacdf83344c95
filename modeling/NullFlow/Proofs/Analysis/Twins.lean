import NullFlow.Proofs.Analysis.Passes
import NullFlow.Proofs.FlowGraph.Twins
/-!
The analysis of graphs that differ in stray blocks alone. Control never comes to stray blocks, so
that the solver and the final visit do the same in both graphs, pair by pair.
-/

namespace NullFlow

namespace Analysis

variable {Result Other Next Another : Type}

/-- Actions that do the same to every session and have related results. -/
def Alike (related : Result → Other → Prop) (left : Analysis Result) (right : Analysis Other) :
    Prop :=
  ∀ session, related (left session).1 (right session).1 ∧ (left session).2 = (right session).2

namespace Alike

variable {related : Result → Other → Prop} {relatedToo : Next → Another → Prop}

theorem pure {result : Result} {other : Other} (same : related result other) :
    Alike related (Pure.pure result) (Pure.pure other) := fun _ => ⟨same, rfl⟩

theorem refl (action : Analysis Result) : Alike Eq action action := fun _ => ⟨rfl, rfl⟩

/-- Actions that are alike stay so through whatever is alike on their results. -/
theorem bind {left : Analysis Result} {right : Analysis Other} {next : Result → Analysis Next}
    {nextToo : Other → Analysis Another} (first : Alike related left right)
    (second : ∀ result other, related result other →
      Alike relatedToo (next result) (nextToo other)) :
    Alike relatedToo (left >>= next) (right >>= nextToo) := by
  intro session
  obtain ⟨results, sessions⟩ := first session
  have both := second _ _ results (left session).2
  change relatedToo (next (left session).1 (left session).2).1
    (nextToo (right session).1 (right session).2).1 ∧
      (next (left session).1 (left session).2).2 = (nextToo (right session).1 (right session).2).2
  rw [← sessions]
  exact both

/-- Loops over paired items are alike if every round is. -/
theorem foldlM {Item Partner : Type} {paired : Item → Partner → Prop} {items : List Item}
    {partners : List Partner} {step : Result → Item → Analysis Result}
    {stepToo : Other → Partner → Analysis Other} (pairs : List.Forall₂ paired items partners)
    (steps : ∀ result other item partner, related result other → paired item partner →
      Alike related (step result item) (stepToo other partner))
    {result : Result} {other : Other} (same : related result other) :
    Alike related (items.foldlM step result) (partners.foldlM stepToo other) := by
  induction pairs generalizing result other with
  | nil => exact .pure same
  | cons pair _ ih =>
      rw [List.foldlM_cons, List.foldlM_cons]
      exact (steps _ _ _ _ same pair).bind fun _ _ later => ih later

/-- Loops over blocks that differ in stray blocks alone do the same, if stray blocks do nothing. -/
theorem forM {paired : Pairing} {lefts rights : List BlockId}
    {body bodyToo : BlockId → Analysis PUnit} (aligned : Pairing.Aligned paired lefts rights)
    (pairs : ∀ id twin, paired id twin → Alike Eq (body id) (bodyToo twin))
    (leftStray : ∀ id, paired.LeftStray id → body id = Pure.pure PUnit.unit)
    (rightStray : ∀ id, paired.RightStray id → bodyToo id = Pure.pure PUnit.unit) :
    Alike Eq (lefts.forM body) (rights.forM bodyToo) := by
  induction aligned with
  | nil => exact .refl _
  | pair isPair _ ih => exact (pairs _ _ isPair).bind fun _ _ _ => ih
  | @skipLeft left lefts _ stray _ ih =>
      change Alike Eq (body left >>= fun _ => lefts.forM body) _
      rw [leftStray left stray, pure_bind]
      exact ih
  | @skipRight right _ rights stray _ ih =>
      change Alike Eq _ (bodyToo right >>= fun _ => rights.forM bodyToo)
      rw [rightStray right stray, pure_bind]
      exact ih

end Alike
end Analysis

open Analysis (Alike)

variable {paired : Pairing}

/-- Stores that are sent along the edges of a pair. -/
def Outflow.Twins (paired : Pairing) : Outflow → Outflow → Prop :=
  List.Forall₂ fun edge other => paired edge.1 other.1 ∧ edge.2 = other.2

structure BlockFlow.Twins (paired : Pairing) (left right : BlockFlow) : Prop where
  entry : left.entry = right.entry
  outflow : Outflow.Twins paired left.outflow right.outflow

/-- Sweeps that know the same of every pair, and nothing of stray blocks. -/
structure Sweep.Twins (paired : Pairing) (graph graphToo : MeaningGraph) (left right : Sweep) :
    Prop where
  leftSize : left.flows.size = graph.blocks.size
  rightSize : right.flows.size = graphToo.blocks.size
  flows : ∀ id twin, paired id twin → (left.flow id).Twins paired (right.flow twin)
  leftStray : ∀ id, paired.LeftStray id → left.flow id = .unreached
  rightStray : ∀ id, paired.RightStray id → right.flow id = .unreached
  changed : left.changed = right.changed

/-- Solutions that agree on every pair, and on which stray blocks are never entered. -/
structure Solution.Twins (paired : Pairing) (left right : Solution) : Prop where
  entries : ∀ id twin, paired id twin → left.entry id = right.entry twin
  leftStray : ∀ id, paired.LeftStray id → left.entry id = .unreachable
  rightStray : ∀ id, paired.RightStray id → right.entry id = .unreachable
  iterations : left.iterations = right.iterations
  converged : left.converged = right.converged

section Blocks

variable (context : Context)

/-- Terminators that are twins send the same stores to twins. -/
theorem Terminator.Twins.run {left right : Terminator Meaning} (twins : left.Twins paired right)
    (store : Store) :
    Alike (Outflow.Twins paired) (left.run context store) (right.run context store) := by
  cases twins with
  | goto target => exact .pure (.cons ⟨target, rfl⟩ .nil)
  | branch whenTrue whenFalse =>
      refine (Alike.refl _).bind fun branches _ same => ?_
      subst same
      exact .pure (.cons ⟨whenTrue, rfl⟩ (.cons ⟨whenFalse, rfl⟩ .nil))
  | @switch scrutinee targets targetsToo pairs =>
      have nullArm : (targets.any fun arm => arm.pattern?.any Pattern.isNull) =
          targetsToo.any fun arm => arm.pattern?.any Pattern.isNull := by
        induction pairs with
        | nil => rfl
        | cons pair _ ih => rw [List.any_cons, List.any_cons, pair.pattern?, ih]
      refine (Alike.refl _).bind fun found _ same => ?_
      subst same
      refine .pure ?_
      rw [nullArm, Outflow.Twins, List.forall₂_map_left_iff, List.forall₂_map_right_iff]
      exact pairs.imp fun _ _ pair => ⟨pair.target, by rw [pair.pattern?]⟩
  | @returnValue value? span =>
      intro session
      have noEdges : ((Terminator.returnValue value? span).run context store session).1 = [] :=
        Terminator.run_returnValue value? span store session
      refine ⟨?_, rfl⟩
      rw [noEdges]
      exact .nil
  | @throwValue value? =>
      cases value? with
      | none => exact .pure .nil
      | some value => exact (Alike.refl _).bind fun _ _ _ => .pure .nil
  | exit => exact .pure .nil

/-- Blocks that are twins send the same stores to twins. -/
theorem Block.Twins.transfer {left right : Block (Simple Meaning) Meaning}
    (twins : left.Twins paired right) (store : Store) :
    Alike (Outflow.Twins paired) (left.transfer context store) (right.transfer context store) := by
  rw [Block.transfer, Block.transfer, twins.steps]
  refine (Alike.refl _).bind fun store _ same => ?_
  subst same
  exact twins.terminator.run context store

end Blocks

section Sweeps

variable {graph graphToo : MeaningGraph} (graphs : FlowGraph.Twins paired graph graphToo)
  {sweep other : Sweep}

/-- At the start nothing is reached in either graph. -/
theorem Sweep.twins_start (paired : Pairing) (graph graphToo : MeaningGraph) :
    Sweep.Twins paired graph graphToo (.start graph.blocks.size) (.start graphToo.blocks.size) where
  leftSize := Array.size_replicate
  rightSize := Array.size_replicate
  flows id twin _ := by
    rw [flow_start, flow_start]
    exact ⟨rfl, .nil⟩
  leftStray id _ := flow_start ..
  rightStray id _ := flow_start ..
  changed := rfl

include graphs

/-- The same stores come to both blocks of a pair. -/
theorem Sweep.Twins.inflow (twins : sweep.Twins paired graph graphToo other) (table : SlotTable)
    {id twin : Nat} (isPair : paired id twin) :
    sweep.inflow table (graph.sources.getD id []) id =
      other.inflow table (graphToo.sources.getD twin []) twin := by
  refine (graphs.sources isPair).foldl_eq (fun merged source partner isSource => ?_)
    (fun merged source stray => ?_) (fun merged source stray => ?_) _
  · have sent := (twins.flows source partner isSource).outflow
    generalize (sweep.flow source).outflow = outflow at sent
    generalize (other.flow partner).outflow = outflowToo at sent
    induction sent generalizing merged with
    | nil => rfl
    | @cons edge edgeToo _ _ edges _ ih =>
        rw [List.foldl_cons, List.foldl_cons, edges.2]
        have same := graphs.ascending.eq_iff edges.1 isPair
        by_cases leads : edge.1 = id
        · rw [if_pos leads, if_pos (same.mp leads), ih]
        · rw [if_neg leads, if_neg fun leadsToo => leads (same.mpr leadsToo), ih]
  · rw [twins.leftStray source stray]
    rfl
  · rw [twins.rightStray source stray]
    rfl

variable (context : Context) (start : Store)

/-- Visits of twins are alike. -/
theorem Sweep.Twins.visit (twins : sweep.Twins paired graph graphToo other) {id twin : Nat}
    (isPair : paired id twin) :
    Alike (Sweep.Twins paired graph graphToo)
      (sweep.visit context graph start graph.sources id)
      (other.visit context graphToo start graphToo.sources twin) := by
  obtain ⟨block, blockToo, found, foundToo, blocks⟩ := graphs.blocks id twin isPair
  rw [Sweep.visit, Sweep.visit, found, foundToo]
  refine (Alike.refl Analysis.slots).bind fun table _ same => ?_
  subst same
  have isEntry := graphs.ascending.eq_iff isPair graphs.entry
  have entries : (if id = FlowGraph.entry then
        (sweep.inflow table (graph.sources.getD id []) id).join table start
      else sweep.inflow table (graph.sources.getD id []) id) =
      if twin = FlowGraph.entry then
        (other.inflow table (graphToo.sources.getD twin []) twin).join table start
      else other.inflow table (graphToo.sources.getD twin []) twin := by
    rw [twins.inflow graphs table isPair]
    by_cases atEntry : id = FlowGraph.entry
    · rw [if_pos atEntry, if_pos (isEntry.mp atEntry)]
    · rw [if_neg atEntry, if_neg fun atEntryToo => atEntry (isEntry.mpr atEntryToo)]
  simp only [entries]
  refine (blocks.transfer context _).bind fun outflow outflowToo sent => .pure ?_
  have inside := twins.leftSize ▸ graphs.leftInside isPair
  have insideToo := twins.rightSize ▸ graphs.rightInside isPair
  refine ⟨?_, ?_, fun other another pairToo => ?_, fun other stray => ?_, fun other stray => ?_, ?_⟩
  · exact Array.size_setIfInBounds.trans twins.leftSize
  · exact Array.size_setIfInBounds.trans twins.rightSize
  · rw [flow_setIfInBounds sweep inside, flow_setIfInBounds _ insideToo]
    have same := graphs.ascending.eq_iff pairToo isPair
    by_cases here : other = id
    · rw [if_pos here, if_pos (same.mp here)]
      exact ⟨rfl, sent⟩
    · rw [if_neg here, if_neg fun hereToo => here (same.mpr hereToo)]
      exact twins.flows other another pairToo
  · rw [flow_setIfInBounds sweep inside, if_neg, twins.leftStray other stray]
    rintro rfl
    exact stray twin isPair
  · rw [flow_setIfInBounds _ insideToo, if_neg, twins.rightStray other stray]
    rintro rfl
    exact stray id isPair
  · rw [twins.changed, (twins.flows id twin isPair).entry]

/-- Passes over twins are alike. -/
theorem Sweep.Twins.pass (twins : sweep.Twins paired graph graphToo other) :
    Alike (Sweep.Twins paired graph graphToo)
      (Comparison.pass context graph start graph.sources graph.reversePostorder sweep)
      (Comparison.pass context graphToo start graphToo.sources graphToo.reversePostorder other) := by
  refine (Alike.refl Analysis.clearReturns).bind fun _ _ _ => ?_
  refine Alike.foldlM graphs.reversePostorder
    (fun before beforeToo id twin later isPair => later.visit graphs context start isPair) ?_
  exact ⟨twins.leftSize, twins.rightSize, twins.flows, twins.leftStray, twins.rightStray, rfl⟩

end Sweeps

section Solutions

/-- The slots to widen are those that differ in some block. -/
theorem Sweep.unstable_eq {now before : Sweep} (size : now.flows.size = before.flows.size)
    (table : SlotTable) :
    Sweep.unstable table now before = (List.range now.flows.size).flatMap fun id =>
      Store.changedSlots table (now.flow id).entry (before.flow id).entry := by
  have entries : now.entries.toList.zip before.entries.toList =
      (List.range now.flows.size).map fun id => ((now.flow id).entry, (before.flow id).entry) := by
    refine List.ext_getElem (by simp [Sweep.entries, size]) fun id inside _ => ?_
    have insideNow : id < now.flows.size := by simpa [Sweep.entries, size] using inside
    have insideBefore : id < before.flows.size := size ▸ insideNow
    simp [Sweep.entries, Sweep.flow, insideNow, insideBefore]
  rw [Sweep.unstable, entries, List.flatMap_map]

variable {graph graphToo : MeaningGraph} (graphs : FlowGraph.Twins paired graph graphToo)
  {sweep other : Sweep}
include graphs

/-- Twins have the same slots to widen. -/
theorem Sweep.Twins.unstable {before beforeToo : Sweep}
    (twins : sweep.Twins paired graph graphToo other)
    (earlier : before.Twins paired graph graphToo beforeToo) (table : SlotTable) :
    Sweep.unstable table sweep before = Sweep.unstable table other beforeToo := by
  rw [unstable_eq (twins.leftSize.trans earlier.leftSize.symm),
    unstable_eq (twins.rightSize.trans earlier.rightSize.symm), twins.leftSize, twins.rightSize]
  refine graphs.ranges.flatMap_eq (fun id twin isPair => ?_) (fun id stray => ?_)
    (fun id stray => ?_)
  · rw [(twins.flows id twin isPair).entry, (earlier.flows id twin isPair).entry]
  · rw [twins.leftStray id stray, earlier.leftStray id stray]
    rfl
  · rw [twins.rightStray id stray, earlier.rightStray id stray]
    rfl

omit graphs in
/-- Sweeps of twins make solutions of twins. -/
theorem Sweep.Twins.solution (twins : sweep.Twins paired graph graphToo other) (passes : Nat)
    (converged : Bool) :
    Solution.Twins paired ⟨sweep.entries, passes, converged⟩ ⟨other.entries, passes, converged⟩ where
  entries id twin isPair := by
    rw [Solution.entry, Solution.entry, getD_entries, getD_entries,
      (twins.flows id twin isPair).entry]
  leftStray id stray := by
    rw [Solution.entry, getD_entries, twins.leftStray id stray]
    rfl
  rightStray id stray := by
    rw [Solution.entry, getD_entries, twins.rightStray id stray]
    rfl
  iterations := rfl
  converged := rfl

omit graphs in
theorem widen_unreachable (slots : List SlotId) : Store.widen .unreachable slots = .unreachable := by
  induction slots with
  | nil => rfl
  | cons slot rest ih => exact ih

omit graphs in
/-- Widening keeps solutions twins. -/
theorem Solution.Twins.widen {solution partner : Solution} (twins : solution.Twins paired partner)
    (slots : List SlotId) :
    Solution.Twins paired { solution with entries := solution.entries.map (·.widen slots) }
      { partner with entries := partner.entries.map (·.widen slots) } := by
  have widened (solution : Solution) (id : BlockId) :
      Solution.entry { solution with entries := solution.entries.map (·.widen slots) } id =
        (solution.entry id).widen slots := by
    simp only [Solution.entry, Array.getD_eq_getD_getElem?, Array.getElem?_map]
    cases solution.entries[id]? with
    | none => exact (widen_unreachable slots).symm
    | some store => rfl
  refine ⟨fun id twin isPair => ?_, fun id stray => ?_, fun id stray => ?_, twins.iterations,
    twins.converged⟩
  · rw [widened, widened, twins.entries id twin isPair]
  · rw [widened, twins.leftStray id stray, widen_unreachable]
  · rw [widened, twins.rightStray id stray, widen_unreachable]

variable (context : Context) (start : Store)

/-- The solver goes on alike if it does so after a pass that changes something. -/
theorem Sweep.Twins.iterate_of {later passes : Nat} (twins : sweep.Twins paired graph graphToo other)
    (goesOn : ∀ now nowToo, now.Twins paired graph graphToo nowToo → nowToo.changed = true →
      Alike (Option.Rel (Solution.Twins paired))
        (Comparison.conclude context graph start graph.sources graph.reversePostorder later passes
          sweep now)
        (Comparison.conclude context graphToo start graphToo.sources graphToo.reversePostorder later
          passes other nowToo)) :
    Alike (Option.Rel (Solution.Twins paired))
      (Sweep.iterate context graph start graph.sources graph.reversePostorder later passes sweep)
      (Sweep.iterate context graphToo start graphToo.sources graphToo.reversePostorder later passes
        other) := by
  rw [Comparison.iterate_eq, Comparison.iterate_eq]
  refine (Alike.refl _).bind fun stop _ same => ?_
  subst same
  cases stop with
  | true => exact .pure .none
  | false =>
      refine (twins.pass graphs context start).bind fun now nowToo nowTwins => ?_
      cases changed : nowToo.changed with
      | true => exact goesOn now nowToo nowTwins changed
      | false =>
          unfold Comparison.conclude
          rw [nowTwins.changed, changed]
          exact .pure (.some (nowTwins.solution _ _))

/-- The passes of the solver are alike on twins, however many there are. -/
theorem Sweep.Twins.iterate (later passes : Nat) (twins : sweep.Twins paired graph graphToo other) :
    Alike (Option.Rel (Solution.Twins paired))
      (Sweep.iterate context graph start graph.sources graph.reversePostorder later passes sweep)
      (Sweep.iterate context graphToo start graphToo.sources graphToo.reversePostorder later passes
        other) := by
  induction later generalizing passes sweep other with
  | zero =>
      refine twins.iterate_of graphs context start fun now nowToo nowTwins changed => ?_
      unfold Comparison.conclude
      rw [nowTwins.changed, changed]
      refine (Alike.refl Analysis.slots).bind fun table _ same => ?_
      subst same
      rw [nowTwins.unstable graphs twins]
      exact .pure (.some ((nowTwins.solution _ _).widen _))
  | succ rest ih =>
      refine twins.iterate_of graphs context start fun now nowToo nowTwins changed => ?_
      unfold Comparison.conclude
      rw [nowTwins.changed, changed]
      exact ih (passes + 1) nowTwins

/-- Twins are solved alike. -/
theorem FlowGraph.Twins.solve : Alike (Option.Rel (Solution.Twins paired))
    (graph.solve context start) (graphToo.solve context start) :=
  (Sweep.twins_start paired graph graphToo).iterate graphs context start _ 0

end Solutions

section Reports

/-- The visit of one block to report on it. -/
def FlowGraph.reportBlock (context : Context) (graph : MeaningGraph) (solution : Solution)
    (id : BlockId) : Analysis PUnit :=
  match graph.blocks[id]? with
  | some block => do
      if (solution.entry id).isReachable then
        let _ ← block.transfer context (solution.entry id)
  | none => pure PUnit.unit

/-- Reports revisit the blocks in the order of their numbers. -/
theorem FlowGraph.report_eq (context : Context) (graph : MeaningGraph) (solution : Solution) :
    Comparison.report context graph solution = (do
      Analysis.clearReturns
      (List.range graph.blocks.size).forM (graph.reportBlock context solution)) := by
  have listed (blocks : List (Block (Simple Meaning) Meaning)) (first : Nat)
      (within : ∀ way, way < blocks.length → graph.blocks[first + way]? = blocks[way]?) :
      ((blocks.zipIdx first).forM fun entry => do
        if (solution.entry entry.2).isReachable then
          let _ ← entry.1.transfer context (solution.entry entry.2)) =
        (List.range' first blocks.length).forM (graph.reportBlock context solution) := by
    induction blocks generalizing first with
    | nil => rfl
    | cons block rest ih =>
        have here : graph.blocks[first]? = some block := within 0 (by simp)
        have others := ih (first + 1) fun way isWay => by
          have later := within (way + 1) (by simpa using isWay)
          rw [Nat.add_assoc, Nat.add_comm 1 way, later, List.getElem?_cons_succ]
        rw [List.zipIdx_cons, List.length_cons, List.range'_succ, List.forM, List.forM, others,
          reportBlock, here]
  rw [Comparison.report, List.range_eq_range']
  refine congrArg _ (funext fun _ => ?_)
  exact listed graph.blocks.toList 0 fun way _ => by rw [Nat.zero_add, Array.getElem?_toList]

variable {graph graphToo : MeaningGraph} (graphs : FlowGraph.Twins paired graph graphToo)
  (context : Context)
include graphs

/-- Twins are reported alike. -/
theorem Solution.Twins.report {solution partner : Solution} (twins : solution.Twins paired partner) :
    Alike Eq (Comparison.report context graph solution)
      (Comparison.report context graphToo partner) := by
  rw [FlowGraph.report_eq, FlowGraph.report_eq]
  refine (Alike.refl Analysis.clearReturns).bind fun _ _ _ => ?_
  refine .forM graphs.ranges (fun id twin isPair => ?_) (fun id stray => ?_) (fun id stray => ?_)
  · obtain ⟨block, blockToo, found, foundToo, blocks⟩ := graphs.blocks id twin isPair
    rw [FlowGraph.reportBlock, FlowGraph.reportBlock, found, foundToo, twins.entries id twin isPair]
    dsimp only
    split
    · exact (blocks.transfer context _).bind fun _ _ _ => .refl _
    · exact .refl _
  · rw [FlowGraph.reportBlock, twins.leftStray id stray]
    cases graph.blocks[id]? <;> rfl
  · rw [FlowGraph.reportBlock, twins.rightStray id stray]
    cases graphToo.blocks[id]? <;> rfl

/-- Twins are analyzed alike. -/
theorem FlowGraph.Twins.analyze (start : Store) : Alike (Option.Rel (Solution.Twins paired))
    (graph.analyze context start) (graphToo.analyze context start) := by
  refine (Alike.refl (Analysis.mute true)).bind fun wasMuted _ same => ?_
  subst same
  refine (graphs.solve context start).bind fun solution? partner? answers => ?_
  refine (Alike.refl (Analysis.mute wasMuted)).bind fun _ _ _ => ?_
  cases answers with
  | none => exact .pure .none
  | @some solution partner twins =>
      have reported : Alike (Option.Rel (Solution.Twins paired))
          (Comparison.report context graph solution >>= fun _ => pure (some solution))
          (Comparison.report context graphToo partner >>= fun _ => pure (some partner)) :=
        (twins.report graphs context).bind fun _ _ _ => .pure (.some twins)
      exact reported

/-- The body of a lambda has the same analysis with and without stray blocks. -/
theorem FlowGraph.Twins.analyzeLambda :
    graph.analyzeLambda context = graphToo.analyzeLambda context := by
  funext delegate? session
  have alike : Alike Eq (graph.analyzeLambda context delegate?)
      (graphToo.analyzeLambda context delegate?) := by
    have body : Alike Eq (Comparison.analyzeBody context graph)
        (Comparison.analyzeBody context graphToo) := by
      refine (graphs.analyze context Store.entry).bind fun _ _ answers => ?_
      cases answers <;> exact .refl _
    rw [Comparison.analyzeLambda_eq, Comparison.analyzeLambda_eq]
    exact (Alike.refl _).bind fun _ _ _ => body.bind fun _ _ _ => .refl _
  obtain ⟨results, sessions⟩ := alike session
  exact Prod.ext results sessions

end Reports
end NullFlow
