import NullFlow.Analysis.Solver
/-!
The table of incoming edges lists every edge as often as its source has it. The sources of a block are
all blocks from which an edge leads to it, and a block sends stores along its edges alone.
-/

namespace NullFlow

section Sources

/-- Edges into blocks, by the number of the block that they lead to. -/
abbrev Incoming := Array (List (BlockId × EdgeKind))

/-- Adds an edge to what is known. -/
def Incoming.add (source : BlockId) (edge : BlockId × EdgeKind) (table : Incoming) : Incoming :=
  table.modify edge.1 fun edges => (source, edge.2) :: edges

theorem Incoming.size_addAll (source : BlockId) (edges : List (BlockId × EdgeKind))
    (table : Incoming) : (edges.foldr (Incoming.add source) table).size = table.size := by
  induction edges with
  | nil => rfl
  | cons edge rest ih => rw [List.foldr_cons, add, Array.size_modify, ih]

/-- Adds the edges out of numbered blocks. -/
def Incoming.addBlocks {Leaf Expr : Type} (blocks : List (Block Leaf Expr × Nat))
    (table : Incoming) : Incoming :=
  blocks.foldr (fun entry table =>
    entry.1.terminator.successors.foldr (Incoming.add entry.2) table) table

theorem Incoming.size_addBlocks {Leaf Expr : Type} (blocks : List (Block Leaf Expr × Nat))
    (table : Incoming) : (addBlocks blocks table).size = table.size := by
  induction blocks with
  | nil => rfl
  | cons entry rest ih => rw [addBlocks, List.foldr_cons, size_addAll, ← addBlocks, ih]

/-- An edge is counted once where it ends, and nowhere else. -/
theorem Incoming.count_add {source known target : Nat} {kind : EdgeKind}
    {edge : BlockId × EdgeKind} {table : Incoming} (inside : target < table.size) :
    ((Incoming.add source edge table).getD target []).count (known, kind) =
      (table.getD target []).count (known, kind) +
        if source = known ∧ edge = (target, kind) then 1 else 0 := by
  obtain ⟨other, otherKind⟩ := edge
  rw [Incoming.add, Array.getD_eq_getD_getElem?, Array.getElem?_modify,
    Array.getD_eq_getD_getElem?, Array.getElem?_eq_getElem inside]
  by_cases same : other = target
  · simp [same, List.count_cons]
  · simp [same]

/-- All edges of a block are counted where they end. -/
theorem Incoming.count_addAll {source known target : Nat} {kind : EdgeKind}
    {edges : List (BlockId × EdgeKind)} {table : Incoming} (inside : target < table.size) :
    ((edges.foldr (Incoming.add source) table).getD target []).count (known, kind) =
      (table.getD target []).count (known, kind) +
        if source = known then edges.count (target, kind) else 0 := by
  induction edges with
  | nil => simp
  | cons edge rest ih =>
      rw [List.foldr_cons, count_add (by rwa [size_addAll]), ih, List.count_cons, Nat.add_assoc]
      by_cases same : source = known
      · simp [same]
      · simp [same]

namespace FlowGraph

variable {Leaf Expr : Type} {graph : FlowGraph Leaf Expr}

/-- The table of incoming edges is filled block by block. -/
theorem incoming_eq (graph : FlowGraph Leaf Expr) : graph.incoming =
    Incoming.addBlocks graph.blocks.toList.zipIdx (Array.replicate graph.blocks.size []) := rfl

/-- Every block has an entry in the table of incoming edges. -/
theorem size_incoming (graph : FlowGraph Leaf Expr) :
    graph.incoming.size = graph.blocks.size := by
  rw [incoming_eq, Incoming.size_addBlocks, Array.size_replicate]

/-- The edges out of blocks that are numbered in their order. -/
theorem count_addBlocks {target source first : Nat} {kind : EdgeKind}
    (blocks : List (Block Leaf Expr)) {table : Incoming} (inside : target < table.size) :
    ((Incoming.addBlocks (blocks.zipIdx first) table).getD target []).count (source, kind) =
      (table.getD target []).count (source, kind) +
        if first ≤ source then
          (blocks[source - first]?.elim [] fun block => block.terminator.successors).count
            (target, kind)
        else 0 := by
  induction blocks generalizing first with
  | nil => simp [Incoming.addBlocks]
  | cons block rest ih =>
      have within : target < (Incoming.addBlocks (rest.zipIdx (first + 1)) table).size := by
        rwa [Incoming.size_addBlocks]
      rw [List.zipIdx_cons, Incoming.addBlocks, List.foldr_cons, ← Incoming.addBlocks,
        Incoming.count_addAll within, ih, Nat.add_assoc]
      congr 1
      by_cases same : first = source
      · subst same
        have notLater : ¬first + 1 ≤ first := Nat.not_succ_le_self first
        simp [notLater]
      · by_cases older : first ≤ source
        · have shift : source - first = source - (first + 1) + 1 := by omega
          have later : first + 1 ≤ source := Nat.lt_of_le_of_ne older same
          simp [same, older, later, shift]
        · have notLater : ¬first + 1 ≤ source := fun later => older (Nat.le_of_succ_le later)
          simp [same, older, notLater]

/-- The table of incoming edges lists an edge as often as its source has it. -/
theorem count_incoming (graph : FlowGraph Leaf Expr) {target : Nat}
    (inside : target < graph.blocks.size) (source : Nat) (kind : EdgeKind) :
    (graph.incoming.getD target []).count (source, kind) =
      (graph.successors source).count (target, kind) := by
  rw [incoming_eq, count_addBlocks _ (by simpa using inside), successors]
  cases found : graph.blocks[source]? <;> simp [found, inside]

/-- An edge is listed at the block where it ends. -/
theorem mem_incoming {source target : Nat} {kind : EdgeKind}
    (edge : (target, kind) ∈ graph.successors source) (inside : target < graph.blocks.size) :
    (source, kind) ∈ graph.incoming.getD target [] := by
  rw [← List.count_pos_iff, count_incoming graph inside, List.count_pos_iff]
  exact edge

/-- What the table of incoming edges lists are edges. -/
theorem edge_of_mem_incoming {source target : Nat} {kind : EdgeKind}
    (listed : (source, kind) ∈ graph.incoming.getD target []) :
    (target, kind) ∈ graph.successors source := by
  have inside : target < graph.blocks.size := by
    refine Nat.lt_of_not_le fun outside => ?_
    have noEntry := Array.getElem?_eq_none (Nat.le_trans (Nat.le_of_eq (size_incoming graph)) outside)
    rw [Array.getD_eq_getD_getElem?, noEntry] at listed
    cases listed
  rw [← List.count_pos_iff, ← count_incoming graph inside, List.count_pos_iff]
  exact listed

/-- Every block from which an edge leads to the block is one of its sources. -/
theorem mem_sources {source target : Nat} {kind : EdgeKind}
    (edge : (target, kind) ∈ graph.successors source) (inside : target < graph.blocks.size) :
    source ∈ graph.sources.getD target [] := by
  have incoming := mem_incoming edge inside
  rw [Array.getD_eq_getD_getElem?] at incoming ⊢
  rw [sources, Array.getElem?_map]
  cases found : graph.incoming[target]? with
  | none => simp [found] at incoming
  | some edges =>
      rw [found] at incoming
      simp only [Option.map_some, Option.getD_some, List.mem_eraseDups]
      exact List.mem_map_of_mem incoming

/-- Only the ends of edges list their sources. -/
theorem edge_of_mem_sources {source target : Nat} (listed : source ∈ graph.sources.getD target []) :
    ∃ kind, (target, kind) ∈ graph.successors source := by
  rw [sources, Array.getD_eq_getD_getElem?, Array.getElem?_map] at listed
  cases found : graph.incoming[target]? with
  | none =>
      rw [found] at listed
      cases listed
  | some edges =>
      rw [found, Option.map_some, Option.getD_some, List.mem_eraseDups] at listed
      obtain ⟨⟨_, kind⟩, inEdges, rfl⟩ := List.mem_map.mp listed
      refine ⟨kind, edge_of_mem_incoming ?_⟩
      rw [Array.getD_eq_getD_getElem?, found]
      exact inEdges

end FlowGraph

end Sources

section Outflow

variable {context : Context}

/-- A return sends nothing. -/
theorem Terminator.run_returnValue (value? : Option Meaning) (span : Span) (store : Store)
    (session : Session) :
    (Terminator.run context (.returnValue value? span) store session).1 = [] := by
  cases value? with
  | none => rfl
  | some meaning =>
      simp only [Terminator.run, bind, StateT.bind]
      cases meaning.value store session with
      | mk result later => cases isReachable : result.2.isReachable <;> simp [isReachable] <;> rfl

/-- The edges along which a terminator sends stores are its own. -/
theorem Terminator.mem_run {terminator : Terminator Meaning} {store sent : Store}
    {session : Session} {target : BlockId}
    (member : (target, sent) ∈ (terminator.run context store session).1) :
    ∃ kind, (target, kind) ∈ terminator.successors := by
  cases terminator with
  | goto next =>
      obtain ⟨rfl, -⟩ := Prod.mk.injEq .. ▸ List.mem_singleton.mp member
      exact ⟨.always, List.mem_singleton_self _⟩
  | branch condition whenTrue whenFalse =>
      rcases List.mem_cons.mp member with same | member
      · obtain ⟨rfl, -⟩ := Prod.mk.injEq .. ▸ same
        exact ⟨.whenTrue, List.mem_cons_self⟩
      · obtain ⟨rfl, -⟩ := Prod.mk.injEq .. ▸ List.mem_singleton.mp member
        exact ⟨.whenFalse, List.mem_cons_of_mem _ List.mem_cons_self⟩
  | switch scrutinee arms =>
      obtain ⟨arm, isArm, same⟩ := List.mem_map.mp member
      obtain ⟨rfl, -⟩ := Prod.mk.injEq .. ▸ same
      obtain ⟨index, inside, rfl⟩ := List.getElem_of_mem isArm
      refine ⟨.arm index, List.mem_map.mpr ⟨(arms[index], index), ?_, rfl⟩⟩
      exact List.mem_zipIdx_iff_getElem?.mpr (List.getElem?_eq_getElem inside)
  | returnValue value? span =>
      rw [Terminator.run_returnValue] at member
      cases member
  | throwValue value? =>
      have silent : (Terminator.run context (.throwValue value?) store session).1 = [] := by
        cases value? <;> rfl
      rw [silent] at member
      cases member
  | exit => cases member

/-- Stores are sent along edges of the graph alone. -/
theorem Block.mem_transfer {block : Block (Simple Meaning) Meaning} {store sent : Store}
    {session : Session} {target : BlockId}
    (member : (target, sent) ∈ (block.transfer context store session).1) :
    ∃ kind, (target, kind) ∈ block.terminator.successors :=
  Terminator.mem_run member

end Outflow
end NullFlow
