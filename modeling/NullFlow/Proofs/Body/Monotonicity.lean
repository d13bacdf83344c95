import NullFlow.Proofs.Analysis.Lockstep.Meanings
import NullFlow.Proofs.Body.LeastSolutions
/-!
The analysis of flat bodies is monotone. A block that begins with less knowledge ends with less
knowledge: it finds the same slots, it warns of at least as much, and it gives no more hints.
-/

namespace NullFlow

/-- The slot tables that the analysis of a graph can meet. It begins with the empty table, and only
runs of blocks make tables larger. -/
inductive FlowGraph.Reaches (context : Context) (graph : MeaningGraph) : SlotTable → Prop where
  | start : Reaches context graph .empty
  | block {session : Session} {store : Store} {block : Block (Simple Meaning) Meaning}
      (before : Reaches context graph session.slots) (within : store.Within session.slots)
      (member : block ∈ graph.blocks) :
      Reaches context graph (block.transfer context store session).2.slots

/-- What two runs of a block leave behind, if less is known in the second one. -/
structure TransfersRise (first second : Outflow × Session) : Prop where
  slots : first.2.slots = second.2.slots
  /-- The edges lead to the same blocks and are reachable alike, and less is known on the second
  ones. -/
  edges : List.Forall₂ (fun edge other => edge.1 = other.1 ∧
    edge.2.isReachable = other.2.isReachable ∧ ∀ slot? : Option SlotId,
      edge.2.lookup first.2.slots slot? ≤ other.2.lookup first.2.slots slot?) first.1 second.1
  /-- The stores on the edges record states of slots of the new table alone. -/
  within : (∀ edge ∈ first.1, edge.2.Within first.2.slots) ∧
    ∀ edge ∈ second.1, edge.2.Within second.2.slots
  warnings : ∀ diagnostic ∈ first.2.recorder.items, diagnostic.kind ≠ .neverNull →
    diagnostic ∈ second.2.recorder.items
  hints : ∀ diagnostic ∈ second.2.recorder.items, diagnostic.kind = .neverNull →
    diagnostic ∈ first.2.recorder.items

/-- The session with an empty recorder that listens to warnings and to hints. -/
def Session.listening (session : Session) : Session := { session with recorder := .start true }

/-- Ordered outflows send stores that know slots of the table alone. -/
theorem Lockstep.outflows_within {table : SlotTable} {one two : Outflow}
    (edges : Lockstep.outflows table one two) :
    (∀ edge ∈ one, edge.2.Within table) ∧ ∀ edge ∈ two, edge.2.Within table := by
  induction edges with
  | nil => simp
  | cons head _ ih =>
      exact ⟨List.forall_mem_cons.mpr ⟨head.2.withinFirst, ih.1⟩,
        List.forall_mem_cons.mpr ⟨head.2.withinSecond, ih.2⟩⟩

/-- Runs in lockstep leave behind what rises. -/
theorem Lockstep.Runs.transfersRise {layout : Layout} {first second : Session}
    {one two : Analysis Outflow} (runs : Lockstep.Runs layout Lockstep.outflows first second one two) :
    TransfersRise (one first) (two second) where
  slots := runs.sessions.slots.symm
  edges := runs.results.imp fun _ _ edge => ⟨edge.1, edge.2.states.reachable, edge.2.lookup⟩
  within := by
    rw [runs.sessions.slots]
    exact Lockstep.outflows_within runs.results
  warnings := runs.sessions.recorders.warnings
  hints := runs.sessions.recorders.hints

namespace Body

variable {body : Body}

section Lockstep

open Lockstep

variable {context : Context} {layout : Layout}

/-- All expressions of a flat body keep two runs in lockstep. -/
theorem Flat.rises (flat : body.Flat) (isLayout : layout = body.layout body.memberState)
    (sameThis : context.thisType? = body.thisType?) : body.forest.All
      (fun _ expr => Rises layout (expr.meaning context))
      (Code.MadeOf (PlainVariable layout) fun expr => Rises layout (expr.meaning context)) := by
  have plainVariable : ∀ id source, body.localVar? id = some source →
      PlainVariable layout source := fun id source found =>
    ⟨flat_coversVariable flat isLayout id source found, isBasic_of_local flat.types found⟩
  have basicThis : context.thisType?.all Ty.isBasic = true := by
    rw [sameThis, Option.all_eq_true]
    exact fun ty isThis => flat.types ty (mem_types_of_this isThis)
  refine forest_all (fun forest known id tree made => ?_) fun forest known id tree made => ?_
  · obtain ⟨expr, kind, atId, isKind, rfl⟩ := of_exprOver? made
    have inBody : expr ∈ body.exprs.toList :=
      Array.mem_toList_iff.mpr (Array.mem_of_getElem? atId)
    obtain ⟨members, callees, isArray, isLambda⟩ := ExprKind.resolve_names isKind
    refine node_rises basicThis ⟨isBasic_of_expr flat.types inBody,
      isArray.trans (flat.noArray expr inBody), isLambda.trans (flat.noLambda expr inBody),
      ?_, ?_, ?_⟩ ?_
    · rintro source rfl
      obtain ⟨number, found⟩ := ExprKind.resolve_read isKind
      exact plainVariable number source found
    · intro member named
      exact ⟨isLayout ▸ flat.coversMember inBody (members ▸ named),
        isBasic_of_member flat.types inBody (members ▸ named)⟩
    · intro callee called ty member
      exact isBasic_of_callee flat.types inBody (callees ▸ called) member
    · intro child member
      obtain ⟨number, _, found⟩ := ExprKind.resolve_children isKind child member
      exact known.exprs number child found
  · exact codeOver?_madeOf plainVariable known.exprs known.codes made

/-- The tables that the analysis of a flat body meets are tables of its layout. -/
theorem Flat.fits_of_reaches (flat : body.Flat) {method : Method} (found : body.method? = some method)
    {classes : ClassTable} {options : Options} {token : CancellationToken} {table : SlotTable}
    (reaches : FlowGraph.Reaches (method.context classes options token)
      (method.graph classes options token) table) :
    (body.layout body.memberState).Fits table := by
  have lenient : method.isFlat (body.layout body.memberState) true = true :=
    flat.method_isFlat (fun strict => by cases strict) found
  have tracking : (Comparison.ofLayout (body.layout body.memberState) .upper token.stops).Tracking
      (method.graph classes options token) :=
    Method.graph_tracking lenient classes options token fun _ => rfl
  induction reaches with
  | start => exact Comparison.fits_empty _
  | block _ within member fits =>
      exact (Comparison.transfer_alone _ tracking member fits within).grows.fits

/-- What a flat body has to return has no inner positions. -/
theorem Flat.expected_basic (flat : body.Flat) {method : Method} (found : body.method? = some method)
    {options : Options} {session : Session}
    (expects : session.expected? = (method.session options).expected?) :
    session.expected?.all Ty.isBasic = true := by
  have returns : method.returnType.isBasic = true := by
    obtain ⟨code, _, same⟩ := Option.bind_eq_some_iff.mp found
    obtain rfl : _ = method := Option.some.inj same
    exact flat.types _ List.mem_cons_self
  rw [expects, Session.expected?, Method.session, Session.start, List.headD_cons]
  dsimp only
  split
  · rfl
  · exact returns

/-- The analysis of a flat body is monotone. Whatever slots it has met, and whatever the body that is
analyzed has returned: if the second of two stores knows less of every slot than the first one, then
what a block does with them rises. -/
theorem flat_transfer_monotone (valid : body.validate = .ok ()) (flat : body.Flat) :
    ∃ method, body.method? = some method ∧
      ∀ (classes : ClassTable) (options : Options) (token : CancellationToken) (session : Session),
        FlowGraph.Reaches (method.context classes options token)
          (method.graph classes options token) session.slots →
        session.expected? = (method.session options).expected? →
        ∀ block ∈ (method.graph classes options token).blocks, ∀ first second : Facts,
          (Store.reachable first).Within session.slots →
          (Store.reachable second).Within session.slots →
          (∀ slot? : Option SlotId, (Store.reachable first).lookup session.slots slot? ≤
            (Store.reachable second).lookup session.slots slot?) →
          TransfersRise
            (block.transfer (method.context classes options token) (.reachable first)
              session.listening)
            (block.transfer (method.context classes options token) (.reachable second)
              session.listening) := by
  obtain ⟨method, found⟩ := method?_exists valid
  refine ⟨method, found, ?_⟩
  intro classes options token session reaches expects block member first second
    withinFirst withinSecond below
  obtain ⟨isCode, sameThis⟩ := code_of_method? found
  have rises := flat.rises rfl
    (show (method.context classes options token).thisType? = body.thisType? from sameThis)
  have together : Lockstep (body.layout body.memberState) session.listening session.listening :=
    ⟨rfl, flat.fits_of_reaches found reaches, .refl _, rfl, flat.expected_basic found expects⟩
  have ordered : (Store.reachable first).Ordered session.slots (.reachable second) :=
    ⟨withinFirst, withinSecond, rfl, fun slot => below (some slot)⟩
  have rise := graph_over (rises.codes _ _ isCode) block member
  exact (transfer_runs rise together ordered).transfersRise

end Lockstep

section Fallback

/-- `x.Foo(); y ?? x;` where `x` and `y` may be null. -/
def fallbackUse : Body where
  name := "M"
  span? := none
  thisType? := none
  parameters := [0, 1]
  returnType := .void
  locals := #[⟨"x", nullableClass, false⟩, ⟨"y", nullableClass, false⟩]
  exprs := #[⟨.read 0, some nullableClass, .none⟩,
    ⟨.call (some 0) ⟨"Foo", "C.Foo()", some "C", [], [], .void⟩ [], some .void, .none⟩,
    ⟨.read 1, some nullableClass, .none⟩, ⟨.read 0, some nullableClass, .none⟩,
    ⟨.coalesce 2 3, some nullableClass, .none⟩]
  stmts := #[⟨.evaluate 1, .none⟩, ⟨.evaluate 4, .none⟩, ⟨.block [0, 1], .none⟩]
  root := 2

theorem fallbackUse_flat : fallbackUse.Flat where
  noLambda := by decide
  noArray := by decide
  types := by decide
  callees := by decide
  members member inBody := by cases inBody

/-- Both locals are not null. -/
def bothKnown : Facts := (SortedMap.empty.insert 0 .notNull).insert 1 .notNull

theorem bothKnown_get? (slot : SlotId) :
    bothKnown.get? slot = if slot = 1 ∨ slot = 0 then some .notNull else none := by
  rw [bothKnown, SortedMap.get?_insert, SortedMap.get?_insert]
  split
  · simp [*]
  · split <;> simp [*]

/-- With both locals known the block gives a hint on the fallback. With nothing known it warns of
the call and gives no hint. -/
theorem fallbackUse_rises :
    fallbackUse.validate = .ok () ∧ fallbackUse.Flat ∧ ∃ method, fallbackUse.method? = some method ∧
      ∃ block ∈ (method.graph plainClasses ⟨40, true⟩ false).blocks, ∃ session : Session,
        let context := method.context plainClasses ⟨40, true⟩ false
        FlowGraph.Reaches context (method.graph plainClasses ⟨40, true⟩ false) session.slots ∧
        let first := block.transfer context (.reachable bothKnown) session.listening
        let second := block.transfer context (.reachable .empty) session.listening
        first.2.recorder.items.map Diagnostic.kind = [.neverNull] ∧
        second.2.recorder.items.map Diagnostic.kind = [.dereference] ∧
        TransfersRise first second := by
  have valid : fallbackUse.validate = .ok () := by decide +kernel
  obtain ⟨method, found, rises⟩ := flat_transfer_monotone valid fallbackUse_flat
  have checked : (fallbackUse.method?.all fun method =>
      let context := method.context plainClasses ⟨40, true⟩ false
      (method.graph plainClasses ⟨40, true⟩ false).blocks[0]?.any fun block =>
        let table := (block.transfer context Store.entry (method.session ⟨40, true⟩)).2.slots
        let session := { method.session ⟨40, true⟩ with slots := table }.listening
        let first := block.transfer context (.reachable bothKnown) session
        let second := block.transfer context (.reachable .empty) session
        decide (table.size = 2) &&
        decide (first.2.recorder.items.map Diagnostic.kind = [.neverNull]) &&
        decide (second.2.recorder.items.map Diagnostic.kind = [.dereference])) = true := by
    decide +kernel
  have checkedMethod := (Option.all_eq_true _ _).mp checked method found
  obtain ⟨block, atZero, checkedBlock⟩ := (Option.any_eq_true _ _).mp checkedMethod
  have member := Array.mem_of_getElem? atZero
  have reaches : FlowGraph.Reaches (method.context plainClasses ⟨40, true⟩ false)
      (method.graph plainClasses ⟨40, true⟩ false)
      (block.transfer (method.context plainClasses ⟨40, true⟩ false) Store.entry
        (method.session ⟨40, true⟩)).2.slots := .block .start (Store.within_entry _) member
  simp only [Bool.and_eq_true, decide_eq_true_eq] at checkedBlock
  generalize (block.transfer (method.context plainClasses ⟨40, true⟩ false) Store.entry
    (method.session ⟨40, true⟩)).2.slots = table at checkedBlock reaches
  obtain ⟨⟨size, hints⟩, warns⟩ := checkedBlock
  have within : (Store.reachable bothKnown).Within table := by
    intro slot state recorded
    rw [Store.facts, bothKnown_get?] at recorded
    split at recorded
    · rename_i isLocal
      rw [size]
      rcases isLocal with rfl | rfl <;> decide
    · cases recorded
  have below : ∀ slot? : Option SlotId, (Store.reachable bothKnown).lookup table slot? ≤
      (Store.reachable .empty).lookup table slot? := by
    intro slot?
    cases slot? with
    | none => exact FlowState.le_refl _
    | some slot =>
        simp only [Store.lookup_some, Store.facts, bothKnown_get?]
        split
        · exact FlowState.notNull_le _
        · exact FlowState.le_refl _
  have risen := rises plainClasses ⟨40, true⟩ false { method.session ⟨40, true⟩ with slots := table }
    reaches rfl block member bothKnown .empty within (Store.within_entry table) below
  exact ⟨valid, fallbackUse_flat, method, found, block, member, _, reaches, hints, warns, risen⟩

end Fallback

end Body
end NullFlow
