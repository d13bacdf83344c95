import NullFlow.Proofs.Body.Caps
import NullFlow.Proofs.Diagnostic.Order
import NullFlow.Proofs.Runtime.Entries
/-!
The report on a converged solution. Every block whose entry is reached is visited once more, and what
is found on the way stays found.
-/

namespace NullFlow

variable {layout : Layout} {context : Context} {code : Code}

section Visits

variable {Item : Type} {items : List Item} {body : Item → Analysis PUnit} {method : String}
  {last : Memory}

/-- What one of several actions reports is reported after all of them. -/
theorem Records.reports_forM (invariant : Session → Prop)
    (keeps : ∀ item ∈ items, ∀ session, invariant session → invariant (body item session).2)
    (records : ∀ item ∈ items, Records (body item)) (item : Item) (member : item ∈ items)
    (reports : ∀ session, invariant session → (body item session).2.Reports method last)
    {session : Session} (holds : invariant session) :
    (items.forM body session).2.Reports method last := by
  induction items generalizing session with
  | nil => cases member
  | cons head rest ih =>
      obtain ⟨keepsHead, keepsRest⟩ := List.forall_mem_cons.mp keeps
      obtain ⟨recordsHead, recordsRest⟩ := List.forall_mem_cons.mp records
      change ((rest.forM body) (body head session).2).2.Reports method last
      rcases List.mem_cons.mp member with rfl | inRest
      · exact (reports session holds).later (Records.forM recordsRest _)
      · exact ih keepsRest recordsRest inRest (keepsHead session holds)

end Visits

/-- The last visit of a block. -/
def revisit (context : Context) (solution : Solution) (place : Block (Simple Meaning) Meaning × Nat) :
    Analysis PUnit := do
  if (solution.entry place.2).isReachable then
    let _ ← place.1.transfer context (solution.entry place.2)

/-- The last visit of a block only adds to what is recorded. -/
theorem revisit_records (sound : Code.Sound layout context code) (solution : Solution) :
    ∀ place ∈ (code.graph context).blocks.toList.zipIdx, Records (revisit context solution place) := by
  rintro ⟨block, id⟩ member
  have inGraph : (code.graph context).blocks[id]? = some block := by
    simpa using List.mem_zipIdx_iff_getElem?.mp member
  rw [Code.graph, FlowGraph.blocks_ofStmt_fold] at inGraph
  obtain ⟨source, found, rfl⟩ := Option.map_eq_some_iff.mp inGraph
  have records := transfer_records (sound.block found) (solution.entry id)
  exact .ite _ (.bind records fun _ => .pure _) (.pure _)

/-- The last visits of all blocks only add to what is recorded. -/
theorem report_records (sound : Code.Sound layout context code) (solution : Solution) :
    Records (Comparison.report context (code.graph context) solution) :=
  .bind (.modifyReturns _) fun _ => .forM (revisit_records sound solution)

open Comparison in
/-- A null receiver that stops an execution of a block is reported if the entry of the block covers the
memory. -/
theorem report_reports {stopRequested : Bool}
    (tracking : (ofLayout layout .exact stopRequested).Tracking (code.graph context))
    (sound : Code.Sound layout context code) {solution : Solution} {session : Session}
    (fits : layout.Fits session.slots) (within : ∀ id, (solution.entry id).Within session.slots)
    {id : BlockId} {block : Block (Simple Expr) Expr} {before last : Memory}
    (found : (FlowGraph.ofStmt code).blocks[id]? = some block)
    (covers : (solution.entry id).Covers layout session.slots before)
    (stops : Memory.machine.pass block.steps block.terminator before = .error (.stopped, last)) :
    (report context (code.graph context) solution session).2.Reports context.method last := by
  have cleared : (Analysis.clearReturns session).2.slots = session.slots :=
    (Silent.clearReturns session).1
  have inGraph := block_graph context found
  refine Records.reports_forM (fun later => layout.Fits later.slots ∧
    session.slots.Extends later.slots) ?_ (revisit_records sound solution) (block.meaning context, id)
    (List.mem_zipIdx_iff_getElem?.mpr (by simpa using inGraph)) ?_ ⟨cleared ▸ fits, cleared ▸ .refl _⟩
  · rintro ⟨other, place⟩ member later ⟨fitsLater, extended⟩
    have inBlocks : other ∈ (code.graph context).blocks := by
      have inside := (List.mem_zipIdx' member).2
      exact Array.mem_toList_iff.mp (inside ▸ List.getElem_mem _)
    have grows := (transfer_alone context tracking inBlocks fitsLater
      ((within place).extend extended)).grows
    unfold revisit
    split
    · exact ⟨grows.fits, extended.trans grows.slots⟩
    · exact ⟨fitsLater, extended⟩
  · rintro later ⟨fitsLater, extended⟩
    have departs := transfer_departs (sound.block found) fitsLater
      (covers.extend fits fitsLater extended)
    rw [stops] at departs
    unfold revisit
    rw [if_pos covers.reachable]
    exact departs rfl

namespace Method

variable {method : Method} {classes : ClassTable} {options : Options} {analysis : MethodAnalysis}

/-- A report comes from a solution, and from a last visit of all blocks in a session in which the
recorder speaks. -/
theorem analyze_reports (analyzed : method.analyze classes options false = some analysis) :
    ∃ solution after, method.solve classes options false = (some solution, after) ∧
      solution.converged = analysis.converged ∧
      analysis.diagnostics = (Comparison.report (method.context classes options false)
        (method.graph classes options false) solution
        (Comparison.unmuted (method.session options) after)).2.recorder.finish := by
  have ran : method.run classes options false = _ := Comparison.analyze_eq (method.session options)
  unfold analyze at analyzed
  rw [ran] at analyzed
  cases solved : method.solve classes options false with
  | mk solution? after =>
      have same : (method.graph classes options false).solve (method.context classes options false)
          Store.entry (Comparison.muted (method.session options)) = (solution?, after) := solved
      rw [same] at analyzed
      cases solution? with
      | none => cases analyzed
      | some solution =>
          dsimp only [MethodAnalysis.ofRun?] at analyzed
          split at analyzed
          · cases analyzed
          · obtain rfl := Option.some.inj analyzed
            exact ⟨solution, after, rfl, rfl, rfl⟩

/-- If the analysis attends the code, then the receiver that stops an execution is reported. -/
theorem stop_reported {layout : Layout} (flat : method.isFlat layout false = true)
    (sound : Code.Sound layout (method.context classes options false) method.code)
    (analyzed : method.analyze classes options false = some analysis)
    (converged : analysis.converged = true) {memory last : Memory}
    (declared : ∀ id, memory.isNull id = true → layout.localState id = .maybeNull) {fuel : Nat}
    (stopped : (FlowGraph.ofStmt method.code).walk Memory.machine fuel FlowGraph.entry memory =
      .ended .stopped last)
    {span : Span} (receiver : last.nullReceiver? = some span) :
    ∃ diagnostic ∈ analysis.diagnostics,
      Diagnostic.order (.dereference span method.name) diagnostic = .eq := by
  obtain ⟨solution, after, solved, sameConverged, diagnostics⟩ := analyze_reports analyzed
  have tracking : (Comparison.ofLayout layout .exact false).Tracking
      (method.graph classes options false) :=
    graph_tracking flat classes options false fun lenient => by cases lenient
  have fits : layout.Fits (Comparison.muted (method.session options)).slots :=
    Comparison.fits_empty layout
  have stable := Comparison.solve_stable tracking Store.within_entry fits solved
    (sameConverged.trans converged)
  have visits : ∀ id : Nat, (method.graph classes options false).Reachable id →
      id < (method.graph classes options false).blocks.size →
      id ∈ (method.graph classes options false).reversePostorder :=
    fun _ => FlowGraph.mem_reversePostorder
  obtain ⟨id, block, before, found, covers, stops⟩ := walk_stops tracking Store.within_entry stable
    sound visits .entry (fun inside => start_covers tracking Store.within_entry stable
      (visits _ .entry inside) inside (.entry stable.fits declared)) stopped
  have within : ∀ id, (solution.entry id).Within after.slots := by
    have alone := Comparison.solve_alone (method.context classes options false) tracking
      Store.within_entry fits
    have known := alone.fits
    rw [solve] at solved
    rw [solved] at known
    exact known solution rfl
  have fitsReport : layout.Fits (Comparison.unmuted (method.session options) after).slots :=
    stable.fits
  have reports := report_reports tracking sound fitsReport within found covers stops
  have muted := (report_records sound solution
    (Comparison.unmuted (method.session options) after)).muted
  obtain ⟨kept, member, same⟩ := Diagnostic.rank_sortAndDedup (reports span receiver muted)
  exact ⟨kept, diagnostics ▸ member, same⟩

end Method

end NullFlow
