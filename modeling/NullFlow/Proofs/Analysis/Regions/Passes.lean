import NullFlow.Proofs.Analysis.Passes
import NullFlow.Proofs.Analysis.Regions.Rules
/-!
The passes of the solver keep to a region if the meanings in the graph do, and so does the visit that
reports. A run that nobody stops has an answer, whatever the bodies of lambdas do.
-/

namespace NullFlow

namespace Region

/-- Graphs can be solved inside the region: values may be written, and slots of which two stores of
the region know different states may be widened. -/
structure Hosts (region : Region) : Prop where
  writes : region.Writes
  widen : ∀ {table first second store slot}, region.Holds table first → region.Holds table second →
    slot ∈ Store.changedSlots table first second → region.Holds table store →
    region.Holds table (store.assign (some slot) .maybeNull)

theorem onTables_hosts (region : Region) : region.onTables.Hosts :=
  ⟨trivial, fun _ _ _ _ => trivial⟩

/-- The meanings in a simple statement keep to the region, and so does the declared variable. -/
def CoversSimple (region : Region) (context : Context) : Simple Meaning → Prop
  | .declare target value? =>
      region.Reads target.id ∧ ∀ meaning ∈ value?, region.Covers context meaning
  | .evaluate meaning => region.Covers context meaning

/-- The meanings and the declarations in a graph keep to the region. -/
structure CoversGraph (region : Region) (context : Context) (graph : MeaningGraph) : Prop where
  parts : graph.Over (region.CoversSimple context) (region.Covers context)

/-- The stores that a block sends are stores of the region. -/
def OutflowFits (region : Region) (table : SlotTable) (outflow : Outflow) : Prop :=
  ∀ edge ∈ outflow, region.Holds table edge.2

structure FlowFits (region : Region) (table : SlotTable) (flow : BlockFlow) : Prop where
  entry : region.Holds table flow.entry
  outflow : region.OutflowFits table flow.outflow

/-- What a sweep knows of the blocks are stores of the region. -/
structure SweepFits (region : Region) (graph : MeaningGraph) (table : SlotTable) (sweep : Sweep) :
    Prop where
  size : sweep.flows.size = graph.blocks.size
  flow : ∀ id, region.FlowFits table (sweep.flow id)

/-- A solution has an entry for every block, and its entries are stores of the region. -/
structure EntriesFit (region : Region) (graph : MeaningGraph) (table : SlotTable)
    (solution : Solution) : Prop where
  size : solution.entries.size = graph.blocks.size
  entry : ∀ id, region.Holds table (solution.entry id)

def SolutionFits (region : Region) (graph : MeaningGraph) (table : SlotTable)
    (solution? : Option Solution) : Prop :=
  ∀ solution ∈ solution?, region.EntriesFit graph table solution

variable {region : Region} {context : Context} {session : Session} {store : Store}

section Blocks

/-- A declaration writes to a variable that may be named and to nothing else. -/
theorem declare_admits (writes : region.Writes) {target : Variable} (reads : region.Reads target.id)
    {meaning : Meaning} (covers : region.Covers context meaning) :
    region.Admits context (target.declare context meaning) region.Holds := by
  intro session store holds
  apply (covers.value holds).bind
  intro evaluated after _ fits
  change region.Runs context after (if !evaluated.2.isReachable then pure evaluated.2 else _) _
  cases evaluated.2.isReachable with
  | false => exact .pure fits.known.store
  | true =>
      simp only [Bool.not_true, Bool.false_eq_true, if_false]
      apply Runs.check _ (.checkConversion _ _ _ _ _)
      intro checked continuesChecked
      apply (variable_runs reads target.ty.declaredState).bind
      intro slot last continuesLast has
      have holds := region.holds_grow fits.known.store (continuesChecked.trans continuesLast).slots
      exact .onSlots (allows_write writes has fits.plants holds)

/-- One step of a block keeps to the region. -/
theorem step_admits (writes : region.Writes) {step : Step (Simple Meaning) Meaning}
    (parts : step.Over (region.CoversSimple context) (region.Covers context)) :
    region.Admits context (step.run context) region.Holds := by
  intro session store holds
  have evaluated : ∀ {meaning : Meaning}, region.Covers context meaning →
      region.Runs context session (Prod.snd <$> meaning.value store) region.Holds := fun covers =>
    (covers.value holds).map Prod.snd fun _ _ fits => fits.known.store
  match step, parts with
  | .simple (.declare _ none), _ => exact .pure holds
  | .simple (.declare target (some meaning)), parts =>
      exact declare_admits writes parts.1 (parts.2 meaning rfl) holds
  | .simple (.evaluate meaning), parts => exact evaluated parts
  | .update meaning, parts => exact evaluated parts

/-- A case of a switch narrows the place of the switched value, which is known. -/
theorem narrow_holds {table : SlotTable} {value : Value}
    (known : region.Knows table value.slot? store) (hasNullArm : Bool) (pattern? : Option Pattern) :
    region.Holds table (SwitchTarget.narrow value hasNullArm store pattern?) := by
  match pattern? with
  | some .null => exact known.assign _
  | some (.type _) => exact known.assign _
  | none =>
      cases hasNullArm with
      | false => exact known.store
      | true => exact known.assign _

/-- The stores that a block sends on along its edges are stores of the region. -/
theorem terminator_admits {terminator : Terminator Meaning}
    (parts : ∀ meaning ∈ terminator.exprs, region.Covers context meaning) :
    region.Admits context (terminator.run context) region.OutflowFits := by
  intro session store holds
  have noEdge : ∀ {session : Session}, region.OutflowFits session.slots [] := by
    intro session edge member
    cases member
  cases terminator with
  | goto target =>
      apply Runs.pure
      intro edge member
      obtain rfl := List.mem_singleton.mp member
      exact holds
  | branch condition whenTrue whenFalse =>
      apply ((parts condition List.mem_cons_self).branches holds).bind
      intro branches after _ fits
      apply Runs.pure
      intro edge member
      rcases List.mem_pair.mp member with rfl | rfl
      · exact fits.whenTrue
      · exact fits.whenFalse
  | switch scrutinee targets =>
      apply ((parts scrutinee List.mem_cons_self).value holds).bind
      intro evaluated after _ fits
      apply Runs.pure
      intro edge member
      obtain ⟨arm, _, rfl⟩ := List.mem_map.mp member
      exact narrow_holds fits.known _ _
  | returnValue value? span =>
      cases value? with
      | none => exact .pure noEdge
      | some meaning =>
          rw [Comparison.run_returnValue]
          apply ((parts meaning List.mem_cons_self).value holds).bind
          intro evaluated after _ _
          apply (Runs.silent (.recordReturn _ _ _ _)).bind
          intro _ last _ _
          exact .pure noEdge
  | throwValue value? =>
      cases value? with
      | none => exact .pure noEdge
      | some meaning =>
          apply ((parts meaning List.mem_cons_self).value holds).bind
          intro evaluated after _ _
          exact .pure noEdge
  | exit => exact .pure noEdge

/-- A whole block keeps to the region: its steps in order, then its end. -/
theorem transfer_admits (writes : region.Writes) {block : Block (Simple Meaning) Meaning}
    (parts : block.Over (region.CoversSimple context) (region.Covers context)) :
    region.Admits context (block.transfer context) region.OutflowFits := by
  intro session store holds
  have steps : region.Runs context session
      (block.steps.foldlM (fun store step => step.run context store) store) region.Holds := by
    refine Runs.foldlM ?_ holds
    intro step member store after _ holdsAfter
    exact step_admits writes (parts.steps step member) holdsAfter
  apply steps.bind
  intro store after _ holdsAfter
  exact terminator_admits parts.terminator holdsAfter

end Blocks

section Sweeps

variable {graph : MeaningGraph} {start : Store} {sources : Array (List BlockId)}
  {order : List BlockId} {sweep : Sweep} {table : SlotTable}

theorem flowFits_unreached (region : Region) (table : SlotTable) :
    region.FlowFits table BlockFlow.unreached := by
  constructor
  · exact region.unreachable table
  · intro edge member
    cases member

/-- A flow that fits a table fits every table that grows from it. -/
theorem FlowFits.grow {flow : BlockFlow} {after : SlotTable} (fits : region.FlowFits table flow)
    (grows : region.Grows table after) : region.FlowFits after flow :=
  ⟨region.holds_grow fits.entry grows, fun edge member =>
    region.holds_grow (fits.outflow edge member) grows⟩

/-- A sweep that fits a table fits every table that grows from it. -/
theorem SweepFits.grow {after : SlotTable} (fits : region.SweepFits graph table sweep)
    (grows : region.Grows table after) : region.SweepFits graph after sweep :=
  ⟨fits.size, fun id => (fits.flow id).grow grows⟩

/-- The sweep that reached nothing yet fits every table. -/
theorem sweepFits_start (region : Region) (graph : MeaningGraph) (table : SlotTable) :
    region.SweepFits graph table (.start graph.blocks.size) where
  size := by simp [Sweep.start]
  flow id := by
    rw [Sweep.flow_start]
    exact flowFits_unreached region table

/-- The join of any number of stores of the region is one. -/
theorem holds_joinAll {stores : List Store} (all : ∀ store ∈ stores, region.Holds table store)
    (other : SlotTable) : region.Holds table (Store.joinAll other stores) := by
  have folded : ∀ {stores : List Store} {store : Store}, region.Holds table store →
      (∀ store ∈ stores, region.Holds table store) →
      region.Holds table (stores.foldl (Store.join other) store) := by
    intro stores
    induction stores with
    | nil => exact fun holds _ => holds
    | cons first rest ih =>
        intro store holds all
        obtain ⟨head, tail⟩ := List.forall_mem_cons.mp all
        exact ih (region.join other holds head) tail
  exact folded (region.unreachable table) all

/-- What arrives at a block was sent by a block or is the start. -/
theorem SweepFits.arriving (fits : region.SweepFits graph table sweep)
    (holds : region.Holds table start) (sources : Array (List BlockId)) (id : BlockId) :
    ∀ store ∈ sweep.arriving start sources id, region.Holds table store := by
  intro store arriving
  rcases mem_arrivals.mp arriving with ⟨source, _, sent⟩ | ⟨_, rfl⟩
  · exact (fits.flow source).outflow _ sent
  · exact holds

/-- Every entry of a sweep is a store of the region. -/
theorem SweepFits.entries (fits : region.SweepFits graph table sweep) :
    ∀ store ∈ sweep.entries.toList, region.Holds table store := by
  intro store inside
  obtain ⟨flow, inFlows, rfl⟩ := List.mem_map.mp (Array.toList_map ▸ inside)
  obtain ⟨id, isInside, rfl⟩ := List.getElem_of_mem inFlows
  have entry := (fits.flow id).entry
  rw [Sweep.flow, Array.getD_eq_getD_getElem?,
    Array.getElem?_eq_getElem (Array.length_toList ▸ isInside)] at entry
  exact entry

/-- The slots that differ between two sweeps may be widened. -/
theorem SweepFits.widen (hosts : region.Hosts) {now before : Sweep}
    (fitsNow : region.SweepFits graph table now) (fitsBefore : region.SweepFits graph table before)
    (holds : region.Holds table store) :
    region.Holds table (store.widen (Sweep.unstable table now before)) := by
  have each : ∀ slot ∈ Sweep.unstable table now before, ∀ store, region.Holds table store →
      region.Holds table (store.assign (some slot) .maybeNull) := by
    intro slot member store holds
    obtain ⟨⟨current, previous⟩, both, changed⟩ := List.mem_flatMap.mp member
    obtain ⟨inNow, inBefore⟩ := List.of_mem_zip both
    exact hosts.widen (fitsNow.entries current inNow) (fitsBefore.entries previous inBefore) changed
      holds
  rw [Store.widen]
  generalize Sweep.unstable table now before = slots at each
  induction slots generalizing store with
  | nil => exact holds
  | cons slot rest ih =>
      obtain ⟨head, tail⟩ := List.forall_mem_cons.mp each
      exact ih (head store holds) tail

theorem SweepFits.solution (fits : region.SweepFits graph table sweep) (passes : Nat)
    (converged : Bool) : region.EntriesFit graph table ⟨sweep.entries, passes, converged⟩ where
  size := by simp [Sweep.entries, fits.size]
  entry id := by
    rw [Solution.entry, Sweep.getD_entries]
    exact (fits.flow id).entry

/-- A change of single stores that stays in the region may be made to all entries at once. -/
theorem EntriesFit.map {solution : Solution} (fits : region.EntriesFit graph table solution)
    {change : Store → Store} (kept : ∀ store, region.Holds table store →
      region.Holds table (change store)) (passes : Nat) (converged : Bool) :
    region.EntriesFit graph table ⟨solution.entries.map change, passes, converged⟩ where
  size := by simp [fits.size]
  entry id := by
    have entry := fits.entry id
    simp only [Solution.entry, Array.getD_eq_getD_getElem?, Array.getElem?_map] at entry ⊢
    cases found : solution.entries[id]? with
    | none => exact region.unreachable table
    | some store =>
        rw [found] at entry
        exact kept store entry

variable (writes : region.Writes) (covers : region.CoversGraph context graph)
  (starts : ∀ table, region.Holds table start)
include writes covers starts

/-- Visiting one block keeps the sweep fit. -/
theorem visit_runs (fits : region.SweepFits graph session.slots sweep) (id : BlockId) :
    region.Runs context session (Sweep.visit context graph start sources sweep id)
      (region.SweepFits graph) := by
  cases found : graph.blocks[id]? with
  | none =>
      rw [Comparison.visit_outside found]
      exact .pure fits
  | some block =>
      have holds : region.Holds session.slots (Store.joinAll session.slots
          (sweep.arriving start sources id)) :=
        holds_joinAll (fits.arriving (starts _) sources id) _
      have sent := transfer_admits writes (covers.parts block (Array.mem_of_getElem? found)) holds
      have inside : (id : Nat) < sweep.flows.size := by
        rw [fits.size]
        exact (Array.getElem?_eq_some_iff.mp found).1
      intro valid
      obtain ⟨continues, outflow⟩ := sent valid
      rw [Comparison.visit_eq found]
      refine ⟨continues, by simpa using fits.size, ?_⟩
      intro other
      rw [Sweep.flow_setIfInBounds sweep inside]
      split
      · exact ⟨region.holds_grow holds continues.slots, outflow⟩
      · exact (fits.flow other).grow continues.slots

/-- One pass over the blocks in order keeps the sweep fit. -/
theorem pass_runs (fits : region.SweepFits graph session.slots sweep) :
    region.Runs context session (Comparison.pass context graph start sources order sweep)
      (region.SweepFits graph) := by
  apply (Runs.silent .clearReturns).bind
  intro _ cleared continues _
  have fitsCleared := fits.grow continues.slots
  refine Runs.foldlM ?_ (⟨fitsCleared.size, fitsCleared.flow⟩ :
    region.SweepFits graph cleared.slots { sweep with changed := false })
  intro id _ now after _ fitsNow
  exact visit_runs writes covers starts fitsNow id

/-- A pass, which begins with a check of the token, keeps to the region. -/
theorem pass_result {after : Session} {now : Sweep}
    (fits : region.SweepFits graph session.slots sweep) (valid : region.Valid session.slots)
    (passed : Comparison.pass context graph start sources order sweep session.checked =
      (now, after)) :
    region.Continues context session after ∧ region.SweepFits graph after.slots now := by
  have kept : region.Runs context session.checked
      (Comparison.pass context graph start sources order sweep) (region.SweepFits graph) :=
    pass_runs writes covers starts fits
  obtain ⟨continues, fitsNow⟩ := kept valid
  rw [passed] at continues fitsNow
  exact ⟨⟨continues.slots, continues.stopped⟩, fitsNow⟩

end Sweeps

section Solver

variable {graph : MeaningGraph} {start : Store} (hosts : region.Hosts)
  (covers : region.CoversGraph context graph) (starts : ∀ table, region.Holds table start)
include hosts covers starts

/-- Solving keeps to the region, and every entry of the answer is a store of it. -/
theorem solve_runs :
    region.Runs context session (graph.solve context start) (region.SolutionFits graph) := by
  refine Comparison.iterate_induct context graph start graph.sources graph.reversePostorder
    (motive := fun _ before session answer => region.SweepFits graph session.slots before →
      region.Valid session.slots →
      region.Continues context session answer.2 ∧ region.SolutionFits graph answer.2.slots answer.1)
    ?stopped ?settled ?exhausted ?again (context.options.maxIterations - 1) 0 _ session
    (sweepFits_start region graph session.slots)
  case stopped =>
    intro _ _ session _ _ _
    refine ⟨⟨region.refl session.slots, Or.inl⟩, ?_⟩
    intro solution isAnswer
    cases isAnswer
  case settled =>
    intro _ before session now after passes _ passed _ fits valid
    obtain ⟨continues, fitsNow⟩ := pass_result hosts.writes covers starts fits valid passed
    refine ⟨continues, ?_⟩
    intro solution isAnswer
    obtain rfl : _ = solution := Option.some.inj isAnswer
    exact fitsNow.solution passes true
  case exhausted =>
    intro before session now after passes _ passed _ fits valid
    obtain ⟨continues, fitsNow⟩ := pass_result hosts.writes covers starts fits valid passed
    refine ⟨continues, ?_⟩
    intro solution isAnswer
    obtain rfl : _ = solution := Option.some.inj isAnswer
    have fitsBefore := fits.grow continues.slots
    exact (fitsNow.solution passes false).map
      (fun store holds => fitsNow.widen hosts fitsBefore holds) passes false
  case again =>
    intro _ before session now after _ _ passed _ ih fits valid
    obtain ⟨continues, fitsNow⟩ := pass_result hosts.writes covers starts fits valid passed
    obtain ⟨continuesRest, fitsAnswer⟩ := ih fitsNow (region.valid_grow valid continues.slots)
    exact ⟨continues.trans continuesRest, fitsAnswer⟩

/-- The solver has an answer unless it has to stop. -/
theorem solve_answers (valid : region.Valid session.slots) (running : session.cancelled = false)
    (noStop : context.token.stops = false) :
    ∃ solution, (graph.solve context start session).1 = some solution := by
  refine Comparison.iterate_induct context graph start graph.sources graph.reversePostorder
    (motive := fun _ before session answer => region.SweepFits graph session.slots before →
      region.Valid session.slots → session.cancelled = false →
      ∃ solution, answer.1 = some solution)
    ?stopped ?settled ?exhausted ?again (context.options.maxIterations - 1) 0 _ session
    (sweepFits_start region graph session.slots) valid running
  case stopped =>
    intro _ _ session stopped _ _ running
    rw [Session.mustStop_eq_false (Bool.or_eq_false_iff.mpr ⟨running, noStop⟩)] at stopped
    cases stopped
  case settled => exact fun _ _ _ _ _ _ _ _ _ _ _ _ => ⟨_, rfl⟩
  case exhausted => exact fun _ _ _ _ _ _ _ _ _ _ _ => ⟨_, rfl⟩
  case again =>
    intro _ before session now after _ _ passed _ ih fits valid running
    obtain ⟨continues, fitsNow⟩ := pass_result hosts.writes covers starts fits valid passed
    apply ih fitsNow (region.valid_grow valid continues.slots)
    by_contra notRunning
    rcases continues.stopped (by simpa using notRunning) with stopped | requested
    · rw [running] at stopped
      cases stopped
    · rw [noStop] at requested
      cases requested

omit starts in
/-- Reporting from entries of the region keeps to it. -/
theorem report_runs {solution : Solution} (fits : region.EntriesFit graph session.slots solution) :
    region.Runs context session (Comparison.report context graph solution) fun _ _ => True := by
  apply (Runs.silent .clearReturns).bind
  intro _ cleared continuesCleared _
  apply Runs.forM
  rintro ⟨block, id⟩ member after continues
  have inGraph : block ∈ graph.blocks := by
    have inside := (List.mem_zipIdx' member).2
    exact Array.mem_toList_iff.mp (inside ▸ List.getElem_mem _)
  change region.Runs context after (if (solution.entry id).isReachable then do
    let _ ← block.transfer context (solution.entry id) else pure ()) _
  split
  · have holds := region.holds_grow (fits.entry id) (continuesCleared.trans continues).slots
    apply (transfer_admits hosts.writes (covers.parts block inGraph) holds).bind
    intro _ last _ _
    exact .pure trivial
  · exact .pure trivial

/-- Solving and reporting together keep to the region. -/
theorem analyze_runs :
    region.Runs context session (graph.analyze context start) (region.SolutionFits graph) := by
  unfold FlowGraph.analyze
  apply (Runs.silent (.mute true)).bind
  intro wasMuted muted _ _
  apply (solve_runs hosts covers starts).bind
  intro solution? solved _ fits
  apply (Runs.silent (.mute wasMuted)).bind
  intro _ unmuted continuesUnmuted _
  cases solution? with
  | none =>
      apply Runs.pure
      intro solution isAnswer
      cases isAnswer
  | some solution =>
      have fits := fits solution rfl
      have fitsNow : region.EntriesFit graph unmuted.slots solution :=
        ⟨fits.size, fun id => region.holds_grow (fits.entry id) continuesUnmuted.slots⟩
      have reported : region.Runs context unmuted
          (Comparison.report context graph solution >>= fun _ => pure (some solution))
          (region.SolutionFits graph) := by
        apply (report_runs hosts covers fitsNow).bind
        intro _ last continuesLast _
        apply Runs.pure
        intro answer isAnswer
        obtain rfl : solution = answer := Option.some.inj isAnswer
        exact ⟨fitsNow.size, fun id => region.holds_grow (fitsNow.entry id) continuesLast.slots⟩
      exact reported

/-- An analysis that nobody stops has an answer. -/
theorem analyze_answers (valid : region.Valid session.slots) (running : session.cancelled = false)
    (noStop : context.token.stops = false) :
    ∃ solution, (graph.analyze context start session).1 = some solution := by
  have validMuted : region.Valid (Comparison.muted session).slots := valid
  have mutedRunning : (Comparison.muted session).cancelled = false := running
  obtain ⟨solution, answered⟩ := solve_answers hosts covers starts validMuted mutedRunning noStop
  rw [Comparison.analyze_eq]
  cases solved : graph.solve context start (Comparison.muted session) with
  | mk solution? after =>
      rw [solved] at answered
      obtain rfl : solution? = some solution := answered
      exact ⟨solution, rfl⟩

end Solver

section Lambdas

variable {graph : MeaningGraph} (covers : region.onTables.CoversGraph context graph)
include covers

/-- The body of a lambda is analyzed on the table alone, and no store leaves it. -/
theorem analyzeBody_runs : region.onTables.Runs context session (Comparison.analyzeBody context graph)
    fun _ _ => True := by
  intro valid
  have starts : ∀ table, region.onTables.Holds table Store.entry := fun _ => trivial
  have analyzed : region.onTables.Runs context session (graph.analyze context Store.entry)
      (region.onTables.SolutionFits graph) :=
    analyze_runs region.onTables_hosts covers starts
  refine ⟨?_, trivial⟩
  have continues := (analyzed valid).1
  cases answer : graph.analyze context Store.entry session with
  | mk solution? after =>
      rw [answer] at continues
      cases solution? with
      | some solution =>
          simp only [Comparison.analyzeBody, bind, StateT.bind, answer]
          exact continues
      | none =>
          simp only [Comparison.analyzeBody, bind, StateT.bind, answer]
          refine ⟨continues.slots, ?_⟩
          intro _
          -- Without an answer the caller wants to stop, or somebody has stopped before.
          by_contra neither
          rw [not_or, Bool.not_eq_true, Bool.not_eq_true] at neither
          obtain ⟨solution, isAnswer⟩ :=
            analyze_answers region.onTables_hosts covers starts valid neither.1 neither.2
          rw [answer] at isAnswer
          cases isAnswer

/-- The body of a lambda has stores of its own, so its analysis keeps to every region that has the
tables in common. -/
theorem analyzeLambda_runs (delegate? : Option Ty) :
    region.Runs context session (graph.analyzeLambda context delegate?) fun _ _ => True := by
  have onTables : region.onTables.Runs context session (graph.analyzeLambda context delegate?)
      fun _ _ => True := by
    rw [Comparison.analyzeLambda_eq]
    apply (Runs.silent (.pushFrame _)).bind
    intro _ pushed _ _
    apply (analyzeBody_runs covers).bind
    intro _ analyzed _ _
    apply (Runs.silent .popFrame).bind
    intro frame last _ _
    dsimp only
    split <;> exact .pure trivial
  intro valid
  obtain ⟨continues, _⟩ := onTables valid
  exact ⟨⟨continues.slots, continues.stopped⟩, trivial⟩

end Lambdas

end Region

end NullFlow
