import NullFlow.Analysis.Method
import NullFlow.Proofs.Analysis.Confinement
import NullFlow.Proofs.Analysis.LiveEdges
import NullFlow.Proofs.Analysis.Passes
import NullFlow.Proofs.Body.Methods
import NullFlow.Proofs.FlowGraph.Placement
/-!
The solver finds reachable stores exactly at the entries of live blocks. No visit of a block reaches
more than what is live. The first pass already reaches all of it, because it comes to every block
after the sources of the forward edges into it, and a live block has a way of forward edges alone.
-/

namespace NullFlow

/-- The graph of meanings has the blocks of the graph of code. -/
structure FlowGraph.Means (context : Context) (code : CodeGraph) (graph : MeaningGraph) : Prop where
  blocks : ∀ id : Nat, graph.blocks[id]? = code.blocks[id]?.map (Block.meaning context)

/-- What a sweep has found of the live blocks. The blocks that are done were visited when control
had come to them. -/
structure Sweep.Follows (code : CodeGraph) (sweep : Sweep) (done : List BlockId) : Prop where
  size : sweep.flows.size = code.blocks.size
  entry : ∀ {id : BlockId}, (sweep.flow id).entry.Live → code.IsLive id
  only : ∀ {id target : BlockId} {store : Store}, (target, store) ∈ (sweep.flow id).outflow →
    store.Live → code.IsLive id ∧ ∃ kind, (target, kind) ∈ code.successors id ∧ code.Opens id kind
  reached : ∀ id ∈ done, code.IsLive id → (sweep.flow id).entry.Live
  all : ∀ id ∈ done, code.IsLive id → ∀ {target : BlockId} {kind : EdgeKind},
    (target, kind) ∈ code.successors id → code.Opens id kind →
      ∃ store, (target, store) ∈ (sweep.flow id).outflow ∧ store.Live

/-- The solution reaches the live blocks and no others. -/
structure Solution.Follows (code : CodeGraph) (solution : Solution) : Prop where
  reachable_iff : ∀ id, (solution.entry id).isReachable = true ↔ code.IsLive id

namespace FlowGraph

variable {context : Context} {code : CodeGraph} {graph : MeaningGraph} {start : Store}
  {place : BlockId → Placement} {done : List BlockId}

section Means

/-- A graph of meanings has the edges of its code. -/
theorem Means.successors (means : Means context code graph) (id : BlockId) :
    graph.successors id = code.successors id := by
  have blocks := means.blocks id
  rw [FlowGraph.successors, FlowGraph.successors, blocks]
  cases code.blocks[id]? with
  | none => rfl
  | some block => exact Terminator.successors_map _ block.terminator

theorem Means.size (means : Means context code graph) : graph.blocks.size = code.blocks.size := by
  apply Nat.le_antisymm
  · have outside := means.blocks code.blocks.size
    simpa using outside
  · have outside := means.blocks graph.blocks.size
    simpa using outside.symm

/-- A way through the meanings is a way through the code. -/
theorem Means.arrives_iff (means : Means context code graph) {passes : BlockId → EdgeKind → Prop}
    {id : BlockId} : graph.Arrives passes id ↔ code.Arrives passes id := by
  constructor
  · intro arrives
    induction arrives with
    | entry => exact .entry
    | step before edge isOpen ih => exact .step ih (means.successors _ ▸ edge) isOpen
  · intro arrives
    induction arrives with
    | entry => exact .entry
    | step before edge isOpen ih => exact .step ih ((means.successors _).symm ▸ edge) isOpen

/-- The graph of code means the code. -/
theorem means_ofStmt (context : Context) (root : Code) :
    Means context (FlowGraph.ofStmt root) (Code.graph context root) :=
  ⟨blocks_ofStmt_fold (Meaning.ofNode context) root⟩

/-- The graph of the expression that a lambda yields means the expression. -/
theorem means_ofValue (context : Context) (value : Expr) (span : Span) :
    Means context (FlowGraph.ofValue value span)
      (FlowGraph.ofValue (value.meaning context) span) := by
  constructor
  intro id
  cases id <;> rfl

end Means

section Order

/-- Control comes to the block from blocks that are done, if it comes there at all. -/
def Ready (code : CodeGraph) (done : List BlockId) (id : BlockId) : Prop :=
  code.IsLive id → id = entry ∨ ∃ source ∈ done, code.IsLive source ∧
    ∃ kind, (id, kind) ∈ code.successors source ∧ code.Opens source kind

/-- Every block is ready when its turn comes. -/
def Orderly (code : CodeGraph) : List BlockId → List BlockId → Prop
  | _, [] => True
  | done, id :: rest => code.Ready done id ∧ Orderly code (id :: done) rest

/-- A block stays ready when more blocks are done. -/
theorem Ready.mono {more : List BlockId} {id : BlockId} (ready : code.Ready done id)
    (subset : done ⊆ more) : code.Ready more id := by
  intro live
  apply (ready live).imp_right
  rintro ⟨source, isDone, arrives⟩
  exact ⟨source, subset isDone, arrives⟩

/-- Blocks stay in order when more blocks are done before. -/
theorem Orderly.mono {blocks more : List BlockId} (orderly : code.Orderly done blocks)
    (subset : done ⊆ more) : code.Orderly more blocks := by
  induction blocks generalizing done more with
  | nil => trivial
  | cons id rest ih =>
      exact ⟨orderly.1.mono subset, ih orderly.2 (List.cons_subset_cons id subset)⟩

/-- What stands before an item of a list without repetitions is in the part before it. -/
theorem mem_left_of_sublist {Item : Type} {first second : Item} {left right : List Item}
    (distinct : (left ++ second :: right).Nodup)
    (before : [first, second].Sublist (left ++ second :: right)) : first ∈ left := by
  obtain ⟨firsts, seconds, split, inLeft, inRight⟩ := List.sublist_append_iff.mp before
  match firsts with
  | [] =>
      -- Both items would stand in the part that begins with the second one.
      obtain rfl : [first, second] = seconds := split
      have twice : [second].Sublist right := by
        cases inRight with
        | cons _ inTail => exact (List.sublist_cons_self first [second]).trans inTail
        | cons_cons _ inTail => exact inTail
      have apart := (List.nodup_append.mp distinct).2.1
      exact absurd (List.singleton_sublist.mp twice) (List.nodup_cons.mp apart).1
  | head :: rest =>
      obtain ⟨rfl, -⟩ := List.cons.inj split
      exact inLeft.subset List.mem_cons_self

/-- In reverse postorder every block comes after those that lead to it. -/
theorem Means.orderly (means : Means context code graph) (structured : graph.Structured place) :
    code.Orderly [] graph.reversePostorder := by
  obtain ⟨distinct, listed⟩ := structured.listing
  suffices prefixes : ∀ done rest, done.reverse ++ rest = graph.reversePostorder →
      code.Orderly done rest from prefixes [] _ rfl
  intro done rest
  induction rest generalizing done with
  | nil => exact fun _ => trivial
  | cons id rest ih =>
      intro whole
      refine ⟨?_, ih (id :: done) (by simpa using whole)⟩
      intro live
      cases structured.forward (means.arrives_iff.mpr live) with
      | entry => exact Or.inl rfl
      | @step source _ kind before edge isOpen forward =>
          have isTarget : id ∈ graph.targets source := List.mem_map.mpr ⟨(id, kind), edge, rfl⟩
          have inOrder := structured.mem_order_iff.mpr before.arrives.reachable
          have sublist := listed source inOrder id isTarget forward
          rw [← whole] at distinct sublist
          have isDone : source ∈ done :=
            List.mem_reverse.mp (mem_left_of_sublist distinct sublist)
          have sourceLive : code.IsLive source := means.arrives_iff.mp before.arrives
          rw [means.successors] at edge
          exact Or.inr ⟨source, isDone, sourceLive, kind, edge, isOpen⟩

end Order

section Blocks

/-- A live block lies in the graph. -/
theorem Means.found (means : Means context code graph) (structured : graph.Structured place)
    {id : BlockId} (live : code.IsLive id) :
    ∃ block, code.blocks[id]? = some block ∧ graph.blocks[id]? = some (block.meaning context) := by
  have inside := structured.lt_size (means.arrives_iff.mpr live).reachable
  rw [means.size] at inside
  have found := Array.getElem?_eq_getElem inside
  exact ⟨_, found, by rw [means.blocks, found, Option.map_some]⟩

theorem successors_of_found {id : BlockId} {block : Block (Simple Expr) Expr}
    (found : code.blocks[id]? = some block) : code.successors id = block.terminator.successors := by
  rw [FlowGraph.successors, found]

theorem opens_of_found {id : BlockId} {block : Block (Simple Expr) Expr} {kind : EdgeKind}
    (found : code.blocks[id]? = some block) :
    code.Opens id kind ↔ block.terminator.Opens kind := by
  simp [Opens, found]

end Blocks

end FlowGraph

namespace Sweep

variable {context : Context} {code : CodeGraph} {graph : MeaningGraph} {start : Store}
  {place : BlockId → Placement} {done : List BlockId} {sweep : Sweep}

section Visit

/-- At the start the sweep follows the code as far as it went. -/
theorem follows_start (means : FlowGraph.Means context code graph) :
    (Sweep.start graph.blocks.size).Follows code [] where
  size := by simp [Sweep.start, means.size]
  entry live := by
    rw [flow_start] at live
    exact absurd live not_live_unreachable
  only sent := by
    rw [flow_start] at sent
    cases sent
  reached id isDone := by cases isDone
  all id isDone := by cases isDone

/-- A visit that leaves a dead block alone. -/
theorem Follows.skip (follows : sweep.Follows code done) {id : BlockId} (dead : ¬code.IsLive id) :
    sweep.Follows code (id :: done) where
  size := follows.size
  entry := follows.entry
  only := follows.only
  reached other isDone live := by
    rcases List.mem_cons.mp isDone with rfl | isDone
    · exact absurd live dead
    · exact follows.reached other isDone live
  all other isDone live := by
    rcases List.mem_cons.mp isDone with rfl | isDone
    · exact absurd live dead
    · exact follows.all other isDone live

/-- The store that a visit joins at a block is reachable if and only if the block is live. -/
theorem Follows.arriving_live (follows : sweep.Follows code done)
    (means : FlowGraph.Means context code graph) (structured : graph.Structured place)
    (startLive : start.Live) {id : BlockId} (ready : code.Ready done id) (table : SlotTable) :
    (Store.joinAll table (sweep.arriving start graph.sources id)).Live ↔ code.IsLive id := by
  rw [Store.Live, Store.isReachable_joinAll, List.any_eq_true]
  constructor
  · rintro ⟨store, arriving, live⟩
    rcases mem_arrivals.mp arriving with ⟨source, _, sent⟩ | ⟨rfl, _⟩
    · obtain ⟨sourceLive, kind, edge, isOpen⟩ := follows.only sent live
      exact .step sourceLive edge isOpen
    · exact .entry
  · intro live
    rcases ready live with rfl | ⟨source, isDone, sourceLive, kind, edge, isOpen⟩
    · exact ⟨start, mem_arrivals.mpr (Or.inr ⟨rfl, rfl⟩), startLive⟩
    · obtain ⟨store, sent, storeLive⟩ := follows.all source isDone sourceLive edge isOpen
      have inside := structured.lt_size (means.arrives_iff.mpr live).reachable
      rw [← means.successors] at edge
      have isSource := FlowGraph.mem_sources edge inside
      exact ⟨store, mem_arrivals.mpr (Or.inl ⟨source, isSource, sent⟩), storeLive⟩

/-- A block is done once an entry that is reachable if and only if the block is live is recorded for
it, and what its terminator sends from there. -/
theorem Follows.record (follows : sweep.Follows code done) {id : BlockId}
    {block : Block (Simple Expr) Expr} (found : code.blocks[id]? = some block) {flow : BlockFlow}
    (liveEntry : flow.entry.Live ↔ code.IsLive id)
    (sends : block.terminator.Sends (code.IsLive id) flow.outflow) (changed : Bool) :
    (Sweep.mk (sweep.flows.setIfInBounds id flow) changed).Follows code (id :: done) := by
  have inside : (id : Nat) < sweep.flows.size := by
    rw [follows.size]
    exact (Array.getElem?_eq_some_iff.mp found).1
  have flows := Sweep.flow_setIfInBounds sweep inside flow changed
  refine ⟨by simpa using follows.size, ?_, ?_, ?_, ?_⟩
  · intro other live
    rw [flows] at live
    split at live
    · rename_i same
      rw [same]
      exact liveEntry.mp live
    · exact follows.entry live
  · intro other target store sent live
    rw [flows] at sent
    split at sent
    · rename_i same
      obtain ⟨isLive, kind, edge, isOpen⟩ := sends.only sent live
      rw [same, FlowGraph.successors_of_found found]
      exact ⟨isLive, kind, edge, (FlowGraph.opens_of_found found).mpr isOpen⟩
    · exact follows.only sent live
  · intro other isDone live
    rw [flows]
    split
    · rename_i same
      exact liveEntry.mpr (same ▸ live)
    · rename_i differs
      exact follows.reached other (List.mem_of_ne_of_mem differs isDone) live
  · intro other isDone live target kind edge isOpen
    rw [flows]
    split
    · rename_i same
      rw [same, FlowGraph.successors_of_found found] at edge
      rw [same, FlowGraph.opens_of_found found] at isOpen
      exact sends.all (same ▸ live) edge isOpen
    · rename_i differs
      exact follows.all other (List.mem_of_ne_of_mem differs isDone) live edge isOpen

/-- A visit of a block that is ready follows the code. -/
theorem Follows.visit (follows : sweep.Follows code done)
    (means : FlowGraph.Means context code graph) (structured : graph.Structured place)
    (startLive : start.Live) {id : BlockId} (ready : code.Ready done id) :
    Ensures (Sweep.visit context graph start graph.sources sweep id) fun now =>
      now.Follows code (id :: done) := by
  cases found : code.blocks[id]? with
  | none =>
      have outside : graph.blocks[id]? = none := by rw [means.blocks, found, Option.map_none]
      rw [Comparison.visit_outside outside]
      apply Ensures.pure
      apply follows.skip
      intro live
      obtain ⟨block, isFound, _⟩ := means.found structured live
      rw [found] at isFound
      cases isFound
  | some block =>
      have atId : graph.blocks[id]? = some (block.meaning context) := by
        rw [means.blocks, found, Option.map_some]
      constructor
      intro session
      rw [Comparison.visit_eq atId]
      have liveEntry := follows.arriving_live means structured startLive ready session.slots
      have sends := (block.transfer_sends context (Store.joinAll session.slots
        (sweep.arriving start graph.sources id))).answer session
      rw [liveEntry] at sends
      exact follows.record found liveEntry sends _

/-- Visits in order follow the code. -/
theorem Follows.visits (means : FlowGraph.Means context code graph)
    (structured : graph.Structured place) (startLive : start.Live) {blocks : List BlockId}
    (follows : sweep.Follows code done) (orderly : code.Orderly done blocks) :
    Ensures (blocks.foldlM (Sweep.visit context graph start graph.sources) sweep) fun now =>
      now.Follows code (blocks.reverse ++ done) := by
  induction blocks generalizing sweep done with
  | nil => exact .pure follows
  | cons id rest ih =>
      rw [List.foldlM_cons]
      apply (follows.visit means structured startLive orderly.1).bind
      intro next followsNext
      have followsAll := ih followsNext orderly.2
      simpa using followsAll

end Visit

section Pass

/-- The changes of a sweep say nothing of what it has found. -/
theorem Follows.restart (follows : sweep.Follows code done) :
    Sweep.Follows code { sweep with changed := false } done :=
  ⟨follows.size, follows.entry, follows.only, follows.reached, follows.all⟩

variable (graph) in
/-- After a pass everything live is found, whatever was found before. -/
theorem Follows.pass (means : FlowGraph.Means context code graph)
    (structured : graph.Structured place) (startLive : start.Live)
    (follows : sweep.Follows code done) :
    Ensures (Comparison.pass context graph start graph.sources graph.reversePostorder sweep)
      fun now => now.Follows code (graph.reversePostorder.reverse ++ done) := by
  apply Ensures.after
  intro _
  have orderly := (means.orderly structured).mono (List.nil_subset done)
  exact follows.restart.visits means structured startLive orderly

/-- The entries after a pass are reachable at the live blocks alone. -/
theorem Follows.live_iff (follows : sweep.Follows code (graph.reversePostorder.reverse ++ done))
    (means : FlowGraph.Means context code graph) (structured : graph.Structured place)
    (id : BlockId) : (sweep.flow id).entry.Live ↔ code.IsLive id := by
  constructor
  · exact follows.entry
  · intro live
    have inOrder := structured.mem_order_iff.mpr (means.arrives_iff.mpr live).reachable
    exact follows.reached id (List.mem_append_left _ (List.mem_reverse.mpr inOrder)) live

/-- A sweep that has followed the code everywhere answers by it. -/
theorem Follows.solution (follows : sweep.Follows code (graph.reversePostorder.reverse ++ done))
    (means : FlowGraph.Means context code graph) (structured : graph.Structured place)
    (passes : Nat) (converged : Bool) :
    Solution.Follows code ⟨sweep.entries, passes, converged⟩ := by
  constructor
  intro id
  rw [Solution.entry, getD_entries]
  exact follows.live_iff means structured id

/-- Widening does not change where control comes to. -/
theorem Follows.widened (follows : sweep.Follows code (graph.reversePostorder.reverse ++ done))
    (means : FlowGraph.Means context code graph) (structured : graph.Structured place)
    (slots : List SlotId) (passes : Nat) (converged : Bool) :
    Solution.Follows code
      ⟨sweep.entries.map fun store => store.widen slots, passes, converged⟩ := by
  constructor
  intro id
  rw [← follows.live_iff means structured id, ← getD_entries]
  simp only [Solution.entry, Array.getD_eq_getD_getElem?, Array.getElem?_map]
  cases sweep.entries[id]? with
  | none => exact Iff.rfl
  | some store => exact iff_of_eq (congrArg (· = true) (Store.isReachable_widen store slots))

end Pass

end Sweep

/-- The solver reaches the live blocks and no others, however many passes it makes. -/
theorem FlowGraph.solve_follows {context : Context} {code : CodeGraph} {graph : MeaningGraph}
    {place : BlockId → Placement} (means : Means context code graph)
    (structured : graph.Structured place) :
    Ensures (graph.solve context Store.entry) fun solution? =>
      ∀ solution ∈ solution?, solution.Follows code := by
  have startLive : Store.entry.Live := rfl
  constructor
  intro session
  refine Comparison.iterate_induct context graph Store.entry graph.sources graph.reversePostorder
    (motive := fun _ before _ answer => (∃ done, before.Follows code done) →
      ∀ solution ∈ answer.1, solution.Follows code)
    ?stopped ?settled ?exhausted ?again _ 0 _ session ⟨[], Sweep.follows_start means⟩
  case stopped =>
    intro _ _ _ _ _ solution isAnswer
    cases isAnswer
  case settled =>
    rintro _ before session now after passes _ passed _ ⟨done, follows⟩ solution isAnswer
    obtain rfl : _ = solution := Option.some.inj isAnswer
    have followsNow := (follows.pass graph means structured startLive).answer session.checked
    rw [passed] at followsNow
    exact followsNow.solution means structured _ _
  case exhausted =>
    rintro before session now after passes _ passed _ ⟨done, follows⟩ solution isAnswer
    obtain rfl : _ = solution := Option.some.inj isAnswer
    have followsNow := (follows.pass graph means structured startLive).answer session.checked
    rw [passed] at followsNow
    exact followsNow.widened means structured _ _ _
  case again =>
    rintro _ before session now after _ _ passed _ ih ⟨done, follows⟩
    have followsNow := (follows.pass graph means structured startLive).answer session.checked
    rw [passed] at followsNow
    exact ih ⟨_, followsNow⟩

end NullFlow

/-!
What the analysis takes for reachable in valid bodies is decided by the text of their conditions
alone. This holds for the graph of the method and the graphs of all lambdas, after any number of
passes.
-/

namespace NullFlow

/-- The solver reaches exactly the live blocks of the code, and dead blocks leave no trace. -/
structure FlowGraph.Reached (context : Context) (code : CodeGraph) (graph : MeaningGraph) : Prop where
  /-- Every answer of the solver reaches the blocks to which no condition bars the way. -/
  entries : ∀ session solution, (graph.solve context Store.entry session).1 = some solution →
    ∀ id, (solution.entry id).isReachable = true ↔ code.IsLive id
  /-- There is an answer unless somebody wants to stop. -/
  answer : ∀ session : Session, session.cancelled = false → context.token.stops = false →
    ∃ solution, (graph.solve context Store.entry session).1 = some solution
  /-- An unreachable store passes a block without a diagnostic, a return or a slot. -/
  unreachable : ∀ block ∈ graph.blocks, ∀ session,
    (block.transfer context .unreachable session).2 = session ∧
      ∀ edge ∈ (block.transfer context .unreachable session).1, edge.2 = .unreachable

/-- Reachability in the analysis of a method is constant folding. -/
structure Method.Reached (method : Method) (context : Context) : Prop where
  body : FlowGraph.Reached context (.ofStmt method.code) (method.code.graph context)
  /-- The graphs of lambdas with a block. -/
  block : ∀ code : Code, FlowGraph.Reached context (.ofStmt code) (code.graph context)
  /-- The graphs of lambdas that yield an expression. -/
  value : ∀ (value : Expr) (span : Span),
    FlowGraph.Reached context (.ofValue value span) (.ofValue (value.meaning context) span)
  /-- The evaluation of an expression goes on wherever it starts. -/
  expression : ∀ (expr : Expr) (store : Store) (session : Session), store.isReachable = true →
    ((expr.meaning context).value store session).1.2.isReachable = true

section Graphs

variable {context : Context} {code : CodeGraph} {graph : MeaningGraph} {place : BlockId → Placement}

/-- The analysis reaches what the constants of the code leave open. -/
theorem FlowGraph.Means.reached (means : Means context code graph)
    (structured : graph.Structured place) (covers : Region.whole.CoversGraph context graph) :
    Reached context code graph where
  entries session solution answered :=
    ((solve_follows means structured).answer session solution answered).reachable_iff
  answer session running noStop := solve_answers covers running noStop
  unreachable block member session := by
    obtain ⟨id, found⟩ := Array.getElem?_of_mem member
    rw [means.blocks] at found
    obtain ⟨source, _, rfl⟩ := Option.map_eq_some_iff.mp found
    exact source.transfer_unreachable session

/-- The analysis of a body reaches what its constants leave open. -/
theorem Code.reached (context : Context) (code : Code) :
    FlowGraph.Reached context (.ofStmt code) (code.graph context) := by
  obtain ⟨place, structured⟩ := FlowGraph.ofStmt_structured
    (foldStmt (Meaning.ofNode context) code)
  exact (FlowGraph.means_ofStmt context code).reached structured
    (Region.whole_coversGraph context code)

/-- A lambda that is one expression reaches its only block. -/
theorem Expr.reached (context : Context) (value : Expr) (span : Span) :
    FlowGraph.Reached context (.ofValue value span) (.ofValue (value.meaning context) span) :=
  (FlowGraph.means_ofValue context value span).reached (FlowGraph.ofValue_structured _ span)
    (Region.whole_coversGraph_ofValue context value span)

end Graphs

/-- The analysis of a method reaches what constants leave open, in its body and in every lambda. -/
theorem Method.reached (method : Method) (context : Context) : method.Reached context where
  body := method.code.reached context
  block code := code.reached context
  value value span := value.reached context span
  expression expr _ session live :=
    ((meaning_decides context expr).value live).answer session

namespace Body

/-- In the analysis of a valid body, a store is reachable where constant conditions do not bar the
way, and nowhere else. -/
theorem reachability_folds (body : Body) (valid : body.validate = .ok ()) :
    ∃ method, body.method? = some method ∧ ∀ classes options token,
      method.Reached (method.context classes options token) := by
  obtain ⟨method, found⟩ := method?_exists valid
  exact ⟨method, found, fun classes options token => method.reached _⟩

/-- A loop that control never leaves: the condition of its only exit fails whatever the flag is. -/
def endlessLoop : Body where
  name := "M"
  span? := none
  thisType? := none
  parameters := [0]
  returnType := .void
  locals := #[⟨"flag", .value "bool" .plain, false⟩]
  exprs := #[⟨.literal (.bool true), some (.value "bool" .plain), .none⟩,
    ⟨.read 0, some (.value "bool" .plain), .none⟩,
    ⟨.binary .or 1 0, some (.value "bool" .plain), .none⟩,
    ⟨.unary .not 2, some (.value "bool" .plain), .none⟩]
  stmts := #[⟨.breakOut, .none⟩, ⟨.ifElse 3 0 none, .none⟩, ⟨.whileLoop 0 1, .none⟩,
    ⟨.evaluate 1, .none⟩, ⟨.block [2, 3], .none⟩]
  root := 4

/-- A loop that never ends keeps the analysis from what stands behind it. -/
theorem endlessLoop_folds : endlessLoop.validate = .ok () ∧ ∃ method,
    endlessLoop.method? = some method ∧ ∀ classes options token,
      method.Reached (method.context classes options token) := by
  have valid : endlessLoop.validate = .ok () := by decide +kernel
  exact ⟨valid, reachability_folds endlessLoop valid⟩

end Body

end NullFlow
