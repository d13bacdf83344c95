import NullFlow.Proofs.Analysis.Cancellation
import NullFlow.Proofs.Analysis.Sweeps
/-!
The passes of the solver, and the analysis of a graph with the final visit of its blocks. A run
that nobody stops has an answer.
-/

namespace NullFlow.Comparison

variable {pair : Comparison} {context : Context} {graph : MeaningGraph} {start : Store}
  {sources : Array (List BlockId)} {order : List BlockId}

section Pass

/-- One pass over the blocks. -/
def pass (context : Context) (graph : MeaningGraph) (start : Store)
    (sources : Array (List BlockId)) (order : List BlockId) (before : Sweep) : Analysis Sweep := do
  Analysis.clearReturns
  order.foldlM (Sweep.visit context graph start sources) { before with changed := false }

/-- What the solver does after a pass. -/
def conclude (context : Context) (graph : MeaningGraph) (start : Store)
    (sources : Array (List BlockId)) (order : List BlockId) (later passes : Nat)
    (before now : Sweep) : Analysis (Option Solution) := do
  if !now.changed then return some ⟨now.entries, passes + 1, true⟩
  match later with
  | 0 =>
      let unstable := Sweep.unstable (← Analysis.slots) now before
      return some ⟨now.entries.map fun store => store.widen unstable, passes + 1, false⟩
  | later + 1 => Sweep.iterate context graph start sources order later (passes + 1) now

/-- Before every pass the token is checked. After it the solver answers, widens or goes on. -/
theorem iterate_eq (later passes : Nat) (before : Sweep) :
    Sweep.iterate context graph start sources order later passes before = (do
      if ← Analysis.mustStop context then return none
      let now ← pass context graph start sources order before
      conclude context graph start sources order later passes before now) := by
  cases later with
  | zero =>
      rw [Sweep.iterate]
      simp only [pass, bind_assoc]
      rfl
  | succ later =>
      rw [Sweep.iterate]
      simp only [pass, bind_assoc]
      rfl

/-- A solver that has to stop has no answer. -/
theorem iterate_stopped {session : Session}
    (stopped : session.mustStop context.token = true) (later passes : Nat)
    (before : Sweep) :
    Sweep.iterate context graph start sources order later passes before session =
      (none, session.checked) := by
  rw [iterate_eq]
  simp only [Analysis.mustStop, bind, StateT.bind, stopped, if_true]
  rfl

/-- The solver makes a pass unless it has to stop. -/
theorem iterate_running {session after : Session} {before now : Sweep}
    (running : session.mustStop context.token = false)
    (passed : pass context graph start sources order before session.checked = (now, after))
    (later passes : Nat) :
    Sweep.iterate context graph start sources order later passes before session =
      conclude context graph start sources order later passes before now after := by
  rw [iterate_eq]
  simp only [Analysis.mustStop, bind, StateT.bind, running, Bool.false_eq_true, if_false, passed]

variable (context graph start sources order) in
/-- The ways in which the solver comes to its answer. -/
theorem iterate_induct {motive : Nat → Sweep → Session → Option Solution × Session → Prop}
    (stopped : ∀ later before session, session.mustStop context.token = true →
      motive later before session (none, session.checked))
    (settled : ∀ later before session now after passes,
      session.mustStop context.token = false →
      pass context graph start sources order before session.checked = (now, after) →
      now.changed = false → motive later before session (some ⟨now.entries, passes, true⟩, after))
    (exhausted : ∀ before session now after passes,
      session.mustStop context.token = false →
      pass context graph start sources order before session.checked = (now, after) →
      now.changed = true → motive 0 before session
        (some ⟨now.entries.map fun store => store.widen (Sweep.unstable after.slots now before),
          passes, false⟩, after))
    (again : ∀ later before session now after passes,
      session.mustStop context.token = false →
      pass context graph start sources order before session.checked = (now, after) → now.changed = true →
      motive later now after
        (Sweep.iterate context graph start sources order later passes now after) →
      motive (later + 1) before session
        (Sweep.iterate context graph start sources order later passes now after))
    (later passes : Nat) (before : Sweep) (session : Session) :
    motive later before session
      (Sweep.iterate context graph start sources order later passes before session) := by
  induction later generalizing passes before session with
  | zero =>
      cases running : session.mustStop context.token with
      | true =>
          rw [iterate_stopped running]
          exact stopped 0 before session running
      | false =>
          cases passed : pass context graph start sources order before session.checked with
          | mk now after =>
              rw [iterate_running running passed, conclude]
              cases changed : now.changed with
              | false => exact settled 0 before session now after _ running passed changed
              | true => exact exhausted before session now after _ running passed changed
  | succ later ih =>
      cases running : session.mustStop context.token with
      | true =>
          rw [iterate_stopped running]
          exact stopped _ before session running
      | false =>
          cases passed : pass context graph start sources order before session.checked with
          | mk now after =>
              rw [iterate_running running passed, conclude]
              cases changed : now.changed with
              | false => exact settled _ before session now after _ running passed changed
              | true =>
                  exact again later before session now after _ running passed changed
                    (ih (passes + 1) now after)

end Pass

section Report

/-- The final visit of the blocks. -/
def report (context : Context) (graph : MeaningGraph) (solution : Solution) : Analysis PUnit := do
  Analysis.clearReturns
  graph.blocks.toList.zipIdx.forM fun (block, id) => do
    if (solution.entry id).isReachable then
      let _ ← block.transfer context (solution.entry id)

/-- The session in which the solver works. -/
def muted (session : Session) : Session := (Analysis.mute true session).2

/-- The session after the solver, in which the recorder speaks as before. -/
def unmuted (before after : Session) : Session := (Analysis.mute before.recorder.muted after).2

/-- An action after another one takes up its result and its session. -/
theorem bind_apply {Result Other : Type} (action : Analysis Result)
    (next : Result → Analysis Other) (session : Session) :
    (action >>= next) session = next (action session).1 (action session).2 := rfl

/-- The analysis solves in silence and reports from the answer, if there is one. -/
theorem analyze_eq (session : Session) :
    graph.analyze context start session =
      match graph.solve context start (muted session) with
      | (none, after) => (none, unmuted session after)
      | (some solution, after) =>
          (some solution, (report context graph solution (unmuted session after)).2) := by
  rw [FlowGraph.analyze, bind_apply, bind_apply, bind_apply]
  have same : graph.solve context start (Analysis.mute true session).2 =
    graph.solve context start (muted session) := rfl
  rw [same]
  cases graph.solve context start (muted session) with
  | mk solution? after => cases solution? <;> rfl

end Report

section Alone

variable (tracking : pair.Tracking graph)
include tracking

variable (sources order) in
/-- A pass keeps to the layout. -/
theorem pass_alone (startWithin : ∀ table, start.Within table) {session : Session} {before : Sweep}
    (fits : pair.layout.Fits session.slots) (known : pair.Known context graph session.slots before) :
    pair.Alone (pair.sweeps context graph) session
      (pass context graph start sources order before) := by
  have cleared := Silent.clearReturns.alone pair fits
  have knownCleared := (pair.sweeps context graph).grow cleared.grows.slots known
  refine cleared.bind (.foldlM cleared.grows.fits knownCleared.restart ?_)
  intro id _ later now grows knownNow
  exact visit_alone tracking knownNow grows.fits (startWithin _) id

/-- A pass, which begins with a check of the token, finds nothing but what the blocks send. -/
theorem Known.pass (startWithin : ∀ table, start.Within table) {session after : Session}
    {before now : Sweep} (known : pair.Known context graph session.slots before)
    (fits : pair.layout.Fits session.slots)
    (passed : Comparison.pass context graph start sources order before session.checked =
      (now, after)) :
    pair.Grows session after ∧ pair.Known context graph after.slots now := by
  have fitsChecked : pair.layout.Fits session.checked.slots := fits
  obtain ⟨grows, knownNow⟩ := pass_alone sources order tracking startWithin fitsChecked known
  rw [passed] at grows knownNow
  exact ⟨⟨grows.slots, grows.fits, grows.cancelled⟩, knownNow⟩

/-- The slots to widen lie in the table. -/
theorem Known.unstable_inside {table : SlotTable} {now before : Sweep}
    (knownNow : pair.Known context graph table now)
    (knownBefore : pair.Known context graph table before) :
    ∀ slot ∈ Sweep.unstable table now before, (slot : Nat) < table.size := by
  intro slot member
  obtain ⟨⟨current, previous⟩, both, changed⟩ := List.mem_flatMap.mp member
  obtain ⟨inNow, inBefore⟩ := List.of_mem_zip both
  have within : ∀ {sweep : Sweep}, pair.Known context graph table sweep →
      ∀ store ∈ sweep.entries.toList, store.Within table := by
    intro sweep known store inside
    obtain ⟨id, isInside, rfl⟩ := List.getElem_of_mem inside
    have within := known.entry_within tracking id
    rw [← Sweep.getD_entries, Array.getD_eq_getD_getElem?,
      Array.getElem?_eq_getElem (Array.length_toList ▸ isInside)] at within
    exact within
  exact Store.changedSlots_inside (within knownNow current inNow)
    (within knownBefore previous inBefore) slot changed

/-- The entries of an answer are stores of the table. -/
theorem Known.solution_within {table : SlotTable} {now : Sweep}
    (known : pair.Known context graph table now) (passes : Nat) (converged : Bool) (id : Nat) :
    (Solution.entry ⟨now.entries, passes, converged⟩ id).Within table := by
  have within := known.entry_within tracking id
  rw [← Sweep.getD_entries] at within
  exact within

/-- The entries of a widened answer are stores of the table. -/
theorem Known.widened_within {table : SlotTable} {now before : Sweep}
    (knownNow : pair.Known context graph table now)
    (knownBefore : pair.Known context graph table before) (passes : Nat) (id : Nat) :
    (Solution.entry ⟨now.entries.map fun store =>
      store.widen (Sweep.unstable table now before), passes, false⟩ id).Within table := by
  have within := knownNow.entry_within tracking id
  rw [← Sweep.getD_entries] at within
  simp only [Solution.entry, Array.getD_eq_getD_getElem?, Array.getElem?_map] at within ⊢
  cases found : now.entries[id]? with
  | none => exact Store.within_unreachable table
  | some store =>
      rw [found] at within
      exact within.widen (knownNow.unstable_inside tracking knownBefore)

/-- The passes of the solver keep to the layout, however many there are. -/
theorem iterate_alone (startWithin : ∀ table, start.Within table) (later passes : Nat)
    {session : Session} {before : Sweep} (fits : pair.layout.Fits session.slots)
    (known : pair.Known context graph session.slots before) :
    pair.Alone solutions session
      (Sweep.iterate context graph start sources order later passes before) := by
  have kept := iterate_induct context graph start sources order
    (motive := fun _ before session answer => pair.layout.Fits session.slots →
      pair.Known context graph session.slots before →
      pair.Grows session answer.2 ∧ solutions.fits answer.2.slots answer.1)
    ?stopped ?settled ?exhausted ?again later passes before session fits known
  case stopped =>
    intro _ _ session _ fits _
    exact ⟨.checked fits, fun solution member => by cases member⟩
  case settled =>
    intro _ before session now after passes _ passed _ fits known
    obtain ⟨grows, knownNow⟩ := known.pass tracking startWithin fits passed
    refine ⟨grows, fun solution member id => ?_⟩
    obtain rfl : _ = solution := Option.some.inj member
    exact knownNow.solution_within tracking passes true id
  case exhausted =>
    intro before session now after passes _ passed _ fits known
    obtain ⟨grows, knownNow⟩ := known.pass tracking startWithin fits passed
    refine ⟨grows, fun solution member id => ?_⟩
    obtain rfl : _ = solution := Option.some.inj member
    have knownBefore := (pair.sweeps context graph).grow grows.slots known
    exact knownNow.widened_within tracking knownBefore passes id
  case again =>
    intro _ before session now after _ _ passed _ ih fits known
    obtain ⟨grows, knownNow⟩ := known.pass tracking startWithin fits passed
    obtain ⟨growsRest, within⟩ := ih grows.fits knownNow
    exact ⟨grows.trans growsRest, within⟩
  exact ⟨kept.1, kept.2⟩

/-- The solver has an answer unless the caller wants it to stop. -/
theorem iterate_answers (startWithin : ∀ table, start.Within table)
    (sameStop : context.token.stops = pair.stopRequested) (later passes : Nat)
    {session : Session} {before : Sweep} (fits : pair.layout.Fits session.slots)
    (known : pair.Known context graph session.slots before)
    (running : (session.cancelled || pair.stopRequested) = false) :
    (Sweep.iterate context graph start sources order later passes before session).1.isSome = true := by
  refine iterate_induct context graph start sources order
    (motive := fun _ before session answer => pair.layout.Fits session.slots →
      pair.Known context graph session.slots before →
      (session.cancelled || pair.stopRequested) = false → answer.1.isSome = true)
    ?stopped ?settled ?exhausted ?again later passes before session fits known running
  case stopped =>
    intro _ _ session stopped _ _ running
    rw [Session.mustStop_eq_false (sameStop ▸ running)] at stopped
    cases stopped
  case settled =>
    intros
    rfl
  case exhausted =>
    intros
    rfl
  case again =>
    intro _ before session now after _ _ passed _ ih fits known running
    obtain ⟨grows, knownNow⟩ := known.pass tracking startWithin fits passed
    refine ih grows.fits knownNow ?_
    rw [grows.cancelled running, (Bool.or_eq_false_iff.mp running).2]
    rfl

variable (context) in
/-- Reporting keeps to the layout. -/
theorem report_alone {session : Session} {solution : Solution}
    (fits : pair.layout.Fits session.slots)
    (within : ∀ id, (solution.entry id).Within session.slots) :
    pair.Alone .any session (report context graph solution) := by
  have cleared := Silent.clearReturns.alone pair fits
  refine cleared.bind (.forM cleared.grows.fits ?_)
  rintro ⟨block, id⟩ member later grows
  have inGraph : block ∈ graph.blocks := by
    have inside := (List.mem_zipIdx' member).2
    exact Array.mem_toList_iff.mp (inside ▸ List.getElem_mem _)
  change pair.Alone .any later (if (solution.entry id).isReachable then do
    let _ ← block.transfer context (solution.entry id) else pure ())
  cases (solution.entry id).isReachable with
  | false => exact ⟨.refl grows.fits, trivial⟩
  | true =>
      have within := (within id).extend (cleared.grows.slots.trans grows.slots)
      have sent := transfer_alone context tracking inGraph grows.fits within
      exact sent.bind ⟨.refl sent.grows.fits, trivial⟩

section Analyze

variable (startWithin : ∀ table, start.Within table) {session : Session}
include startWithin

variable (context) in
/-- Solving keeps to the layout. -/
theorem solve_alone (fits : pair.layout.Fits session.slots) :
    pair.Alone solutions session (graph.solve context start) :=
  iterate_alone tracking startWithin _ 0 fits (known_start _)

variable (context) in
/-- Solving and reporting keep to the layout. -/
theorem analyze_alone (fits : pair.layout.Fits session.slots) :
    pair.Alone solutions session (graph.analyze context start) := by
  have mutedAlone := (Silent.mute true).alone pair fits
  have solved := solve_alone context tracking startWithin mutedAlone.grows.fits
  have unmutedAlone := (Silent.mute session.recorder.muted).alone pair solved.grows.fits
  unfold FlowGraph.analyze
  refine mutedAlone.bind (solved.bind (unmutedAlone.bind ?_))
  have within := solutions.grow unmutedAlone.grows.slots solved.fits
  revert within
  generalize (graph.solve context start (Analysis.mute true session).2).1 = solution?
  intro within
  cases solution? with
  | none => exact ⟨.refl unmutedAlone.grows.fits, within⟩
  | some solution =>
      have reported := report_alone context tracking unmutedAlone.grows.fits
        (within solution rfl)
      have answered : pair.Alone solutions _
          (report context graph solution >>= fun _ => pure (some solution)) :=
        reported.bind ⟨.refl reported.grows.fits, solutions.grow reported.grows.slots within⟩
      exact answered

/-- The analysis has the answer of the solver, and it may find more slots. -/
theorem analyze_of_solve (fits : pair.layout.Fits session.slots) :
    (graph.analyze context start session).1 = (graph.solve context start (muted session)).1 ∧
      pair.Grows (graph.solve context start (muted session)).2
        (graph.analyze context start session).2 := by
  have solved : pair.Alone solutions (muted session) (graph.solve context start) :=
    solve_alone context tracking startWithin fits
  rw [analyze_eq]
  cases isSolved : graph.solve context start (muted session) with
  | mk solution? after =>
      obtain ⟨grows, within⟩ := solved
      rw [isSolved] at grows within
      have unmutedAlone := (Silent.mute session.recorder.muted).alone pair grows.fits
      cases solution? with
      | none => exact ⟨rfl, unmutedAlone.grows⟩
      | some solution =>
          have reported := report_alone context tracking unmutedAlone.grows.fits
            (solutions.grow unmutedAlone.grows.slots within solution rfl)
          exact ⟨rfl, unmutedAlone.grows.trans reported.grows⟩

/-- An analysis that is not stopped has an answer. -/
theorem analyze_answers (sameStop : context.token.stops = pair.stopRequested)
    (fits : pair.layout.Fits session.slots)
    (running : (session.cancelled || pair.stopRequested) = false) :
    (graph.analyze context start session).1.isSome = true := by
  rw [(analyze_of_solve tracking startWithin fits).1]
  exact iterate_answers tracking startWithin sameStop _ 0 fits (known_start _) running

end Analyze

section Lambda

/-- Analyzes the body of a lambda. Without an answer the whole analysis stops. -/
def analyzeBody (context : Context) (graph : MeaningGraph) : Analysis PUnit := do
  if (← graph.analyze context Store.entry).isNone then Analysis.cancel

/-- The join of what the innermost body returned. -/
def returnedValue (context : Context) : Analysis (Option Value) := do
  let frame ← Analysis.popFrame
  if frame.returns.isEmpty then return none
  let state := FlowState.joinAll (frame.returns.map Returned.state)
  let ty? := context.classes.bestCommon? (frame.returns.filterMap Returned.ty?)
  return some (.loose state (ty?.map (Ty.withState state)))

omit tracking in
/-- A lambda is analyzed in a frame of its own. -/
theorem analyzeLambda_eq (delegate? : Option Ty) :
    graph.analyzeLambda context delegate? = (do
      Analysis.pushFrame ((delegate?.bind Ty.result?).filter fun ty => !ty.isVoid)
      analyzeBody context graph
      returnedValue context) := by
  unfold FlowGraph.analyzeLambda analyzeBody
  simp only [bind_assoc]
  refine congrArg _ (funext fun _ => congrArg _ (funext fun solution? => ?_))
  cases solution? <;> rfl

/-- The analysis of a body keeps to the layout. -/
theorem analyzeBody_alone (sameStop : context.token.stops = pair.stopRequested)
    {session : Session} (fits : pair.layout.Fits session.slots) :
    pair.Alone .any session (analyzeBody context graph) := by
  have alone := analyze_alone context tracking Store.within_entry fits
  have answers := analyze_answers tracking Store.within_entry sameStop fits
  cases analyzed : graph.analyze context Store.entry session with
  | mk solution? after =>
      obtain ⟨grows, _⟩ := alone
      rw [analyzed] at grows answers
      cases solution? with
      | none =>
          refine .congr ?_ (⟨⟨grows.slots, grows.fits, fun running => ?_⟩, trivial⟩ :
            pair.Alone .any session fun _ => (PUnit.unit, { after with cancelled := true }))
          · simp only [analyzeBody, bind, StateT.bind, analyzed]
            rfl
          · cases answers running
      | some solution =>
          refine .congr ?_ (⟨grows, trivial⟩ : pair.Alone .any session fun _ => (PUnit.unit, after))
          simp only [analyzeBody, bind, StateT.bind, analyzed]
          rfl

/-- The analysis of a lambda touches nothing but the slot table. -/
theorem analyzeLambda_alone (sameStop : context.token.stops = pair.stopRequested)
    (delegate? : Option Ty) {session : Session} (fits : pair.layout.Fits session.slots) :
    pair.Alone .any session (graph.analyzeLambda context delegate?) := by
  rw [analyzeLambda_eq]
  have pushed := (Silent.pushFrame ((delegate?.bind Ty.result?).filter fun ty => !ty.isVoid)).alone
    pair fits
  have analyzed := analyzeBody_alone tracking sameStop pushed.grows.fits
  have popped := Silent.popFrame.alone pair analyzed.grows.fits
  refine pushed.bind (analyzed.bind (popped.bind ?_))
  split <;> exact ⟨.refl popped.grows.fits, trivial⟩

end Lambda

end Alone

end NullFlow.Comparison
