import Mathlib.Logic.Relation
import NullFlow.Proofs.FlowGraph.Order
/-!
The order of a depth-first search of any graph. The blocks around the current point lead to each
other from the outside in, so an edge that leads back to one of them closes a cycle, and of every
other edge the search has left the target before the source.
-/

namespace NullFlow.FlowGraph

variable {Leaf Expr : Type} {graph : FlowGraph Leaf Expr} {search : Search}

/-- Control can go from one block to another, in any number of steps. -/
def Leads (graph : FlowGraph Leaf Expr) : BlockId → BlockId → Prop :=
  Relation.ReflTransGen fun source target => target ∈ graph.targets source

/-- The search goes through the graph from the entry, and comes to every block once. -/
structure Touring (graph : FlowGraph Leaf Expr) (search : Search) : Prop where
  met : ∀ id, id ∈ search.path.map Prod.fst ∨ id ∈ search.order → Met search.met id
  once : (search.path.map Prod.fst ++ search.order).Nodup
  chain : (search.path.map Prod.fst).Pairwise fun inner outer => graph.Leads outer inner
  todo : ∀ entered ∈ search.path, ∀ target ∈ entered.2, target ∈ graph.targets entered.1
  reached : ∀ id, id ∈ search.path.map Prod.fst ∨ id ∈ search.order → graph.Reachable id
  /-- The entry is the outermost block, and the one that is left last. -/
  root : ((search.path.map Prod.fst).getLast?.or search.order.head?) = some entry
  before : ∀ source ∈ search.order, ∀ target ∈ graph.targets source, ¬graph.Leads target source →
    [source, target].Sublist search.order

/-- The targets of a reachable block are reachable. -/
theorem Reachable.of_target {source target : BlockId} (reachable : graph.Reachable source)
    (isTarget : target ∈ graph.targets source) : graph.Reachable target := by
  obtain ⟨⟨_, kind⟩, edge, rfl⟩ := List.mem_map.mp isTarget
  exact .step reachable edge

section Steps

variable {id target : BlockId} {todo : List BlockId} {outer : List (BlockId × List BlockId)}
  {met : Array Bool} {order : List BlockId}

/-- The search passes over an edge to a block that it has met. -/
theorem Touring.pass (touring : Touring graph ⟨met, (id, target :: todo) :: outer, order⟩) :
    Touring graph ⟨met, (id, todo) :: outer, order⟩ := by
  refine { touring with todo := List.forall_mem_cons.mpr ⟨fun other toTry => ?_, ?_⟩ }
  · exact touring.todo _ List.mem_cons_self other (List.mem_cons_of_mem _ toTry)
  · exact fun entered member => touring.todo entered (List.mem_cons_of_mem _ member)

/-- The search enters a block to which the innermost block leads. -/
theorem Touring.entered (touring : Touring graph ⟨met, (id, todo) :: outer, order⟩)
    (isTarget : target ∈ graph.targets id) (isNew : ¬Met met target) :
    Touring graph (FlowGraph.entered graph ⟨met, (id, todo) :: outer, order⟩ target) := by
  have atTarget : Met (met.setIfInBounds target true) target := by
    rw [Met, getD_set, if_pos rfl]
  have fresh : ∀ other, other ∈ ((id, todo) :: outer).map Prod.fst ∨ other ∈ order → other ≠ target := by
    rintro other member rfl
    exact isNew (touring.met other member)
  constructor
  case met =>
    rintro other (inPath | inOrder)
    · rcases List.mem_cons.mp inPath with rfl | further
      · exact atTarget
      · exact met_set (touring.met other (Or.inl further)) target
    · exact met_set (touring.met other (Or.inr inOrder)) target
  case once =>
    refine List.nodup_cons.mpr ⟨fun member => ?_, touring.once⟩
    exact fresh target (List.mem_append.mp member) rfl
  case chain =>
    refine List.pairwise_cons.mpr ⟨fun other member => ?_, touring.chain⟩
    rcases List.mem_cons.mp member with rfl | further
    · exact .single isTarget
    · exact .tail ((List.pairwise_cons.mp touring.chain).1 other further) isTarget
  case todo => exact List.forall_mem_cons.mpr ⟨fun _ toTry => toTry, touring.todo⟩
  case reached =>
    rintro other (inPath | inOrder)
    · rcases List.mem_cons.mp inPath with rfl | further
      · exact (touring.reached id (Or.inl List.mem_cons_self)).of_target isTarget
      · exact touring.reached other (Or.inl further)
    · exact touring.reached other (Or.inr inOrder)
  case root =>
    have root := touring.root
    rwa [List.map_cons, ← List.getLast?_cons_cons (a := target)] at root
  case before => exact touring.before

/-- The search leaves a block of which it has tried all edges. An edge to a block around the current
point leads back. -/
theorem Touring.leave (touring : Touring graph ⟨met, (id, []) :: outer, order⟩)
    (tried : ∀ target ∈ graph.targets id, target ∈ ((id, []) :: outer).map Prod.fst ∨ target ∈ order) :
    Touring graph ⟨met, outer, id :: order⟩ := by
  have moved : ∀ other, other ∈ outer.map Prod.fst ∨ other ∈ id :: order →
      other ∈ ((id, []) :: outer).map Prod.fst ∨ other ∈ order := by
    rintro other (inPath | inOrder)
    · exact Or.inl (List.mem_cons_of_mem _ inPath)
    · rcases List.mem_cons.mp inOrder with rfl | earlier
      · exact Or.inl List.mem_cons_self
      · exact Or.inr earlier
  obtain ⟨leadsBack, chain⟩ := List.pairwise_cons.mp touring.chain
  constructor
  case met => exact fun other member => touring.met other (moved other member)
  case once => exact List.nodup_middle.mpr touring.once
  case chain => exact chain
  case todo => exact fun entered member => touring.todo entered (List.mem_cons_of_mem _ member)
  case reached => exact fun other member => touring.reached other (moved other member)
  case root =>
    have root := touring.root
    cases outer with
    | nil => exact root
    | cons next further =>
        rwa [List.map_cons, List.map_cons, List.getLast?_cons_cons] at root
  case before =>
    intro source member target isTarget noWay
    rcases List.mem_cons.mp member with rfl | wasLeft
    · apply List.Sublist.cons_cons source
      rw [List.singleton_sublist]
      rcases tried target isTarget with inPath | inOrder
      · rcases List.mem_cons.mp inPath with rfl | further
        · exact absurd .refl noWay
        · exact absurd (leadsBack target further) noWay
      · exact inOrder
    · exact (touring.before source wasLeft target isTarget noWay).cons id

end Steps

/-- All edges of the graph lead to blocks of the graph. -/
def Closed (graph : FlowGraph Leaf Expr) : Prop :=
  ∀ block ∈ graph.blocks, ∀ edge ∈ block.terminator.successors, edge.1 < graph.blocks.size

/-- A graph is closed if all of its edges end in it. -/
theorem closed_iff : graph.Closed ↔ ∀ {source target : Nat} {kind : EdgeKind},
    (target, kind) ∈ graph.successors source → target < graph.blocks.size := by
  constructor
  · intro closed source target kind edge
    cases found : graph.blocks[source]? with
    | none =>
        rw [successors, found] at edge
        cases edge
    | some block =>
        rw [successors, found] at edge
        exact closed block (Array.mem_of_getElem? found) _ edge
  · intro closed block member edge isEdge
    obtain ⟨source, found⟩ := Array.getElem?_of_mem member
    have isSuccessor : (edge.1, edge.2) ∈ graph.successors source := by rwa [successors, found]
    exact closed isSuccessor

theorem Closed.target_inside (closed : graph.Closed) {source target : BlockId}
    (isTarget : target ∈ graph.targets source) : target < graph.blocks.size := by
  obtain ⟨⟨_, kind⟩, edge, rfl⟩ := List.mem_map.mp isTarget
  exact closed_iff.mp closed edge

/-- What is reachable in a closed graph lies in it. -/
theorem Closed.reachable_inside (closed : graph.Closed) (nonempty : 0 < graph.blocks.size)
    {id : BlockId} (reachable : graph.Reachable id) : (id : Nat) < graph.blocks.size := by
  cases reachable with
  | entry => exact nonempty
  | step _ edge => exact closed_iff.mp closed edge

/-- A step of the search keeps it on its tour. -/
theorem Touring.advance (closed : graph.Closed) (searching : Searching graph search)
    (touring : Touring graph search) : Touring graph (graph.advance search) := by
  obtain ⟨met, path, order⟩ := search
  match path with
  | [] => exact touring
  | (id, []) :: outer =>
      refine touring.leave fun target isTarget => ?_
      have isMet := (searching.path (id, []) List.mem_cons_self target isTarget).resolve_left
        List.not_mem_nil
      exact searching.kept target (closed.target_inside isTarget) isMet
  | (id, target :: todo) :: outer =>
      change Touring graph (graph.enter ⟨met, (id, todo) :: outer, order⟩ target)
      by_cases isMet : Met met target
      · rw [enter_met isMet]
        exact touring.pass
      · rw [enter_new isMet]
        have isTarget := touring.todo _ List.mem_cons_self target List.mem_cons_self
        exact touring.pass.entered isTarget isMet

/-- The search keeps on its tour for as many steps as it runs. -/
theorem Touring.explore (closed : graph.Closed) (steps : Nat) (searching : Searching graph search)
    (touring : Touring graph search) : Touring graph (graph.explore steps search) := by
  induction steps generalizing search with
  | zero => exact touring
  | succ steps ih => exact ih searching.advance (touring.advance closed searching)

section Order

/-- The list has the blocks that control can come to, each of them once and the entry first. A block
stands before every block that it leads to along an edge, unless the edge leads back to it. -/
structure Orders (graph : FlowGraph Leaf Expr) (order : List BlockId) : Prop where
  entry : order.head? = some entry
  mem_iff : ∀ id, id ∈ order ↔ graph.Reachable id
  nodup : order.Nodup
  before : ∀ source ∈ order, ∀ target ∈ order, ∀ kind, (target, kind) ∈ graph.successors source →
    ¬graph.Leads target source → [source, target].Sublist order

/-- The search starts on its tour. -/
theorem touring_started (nonempty : 0 < graph.blocks.size) : Touring graph graph.started := by
  rw [started_new nonempty]
  constructor
  case met =>
    rintro id (inPath | inOrder)
    · obtain rfl := List.mem_singleton.mp inPath
      rw [entered, Met, getD_set, if_pos rfl]
    · cases inOrder
  case once => exact List.nodup_singleton _
  case chain => exact List.pairwise_singleton _ _
  case todo =>
    intro entered member target toTry
    obtain rfl := List.mem_singleton.mp member
    exact toTry
  case reached =>
    rintro id (inPath | inOrder)
    · obtain rfl := List.mem_singleton.mp inPath
      exact .entry
    · cases inOrder
  case root => rfl
  case before => exact fun _ member => by cases member

/-- In every graph the search ends by itself, within as many steps as there are edges and blocks. The
order that it leaves lists the blocks that control can come to, forward along the edges. -/
theorem reversePostorder_orders (graph : FlowGraph Leaf Expr) (nonempty : 0 < graph.blocks.size)
    (closed : graph.Closed) :
    graph.Orders graph.reversePostorder ∧
      ∀ steps, graph.edgeCount + graph.blocks.size ≤ steps →
        (graph.explore steps graph.started).path = [] ∧
          (graph.explore steps graph.started).order = graph.reversePostorder := by
  have ended := (started_ends graph (Nat.le_refl _)).2
  have touring := (touring_started nonempty).explore closed
    (graph.edgeCount + graph.blocks.size) (searching_started graph)
  constructor
  · constructor
    case entry =>
      have root := touring.root
      rwa [ended, List.map_nil, List.getLast?_nil, Option.none_or] at root
    case mem_iff =>
      intro id
      constructor
      · exact fun inOrder => touring.reached id (Or.inr inOrder)
      · exact fun reachable =>
          mem_reversePostorder reachable (closed.reachable_inside nonempty reachable)
    case nodup =>
      have once := touring.once
      rwa [ended, List.map_nil, List.nil_append] at once
    case before =>
      intro source member target _ kind edge noWay
      exact touring.before source member target (List.mem_map_of_mem edge) noWay
  · intro steps enough
    obtain ⟨more, rfl⟩ := Nat.exists_eq_add_of_le enough
    exact ⟨(started_ends graph enough).2, (reversePostorder_eq graph more).symm⟩

/-- Two ways lead into a loop, one block leads to itself, and the last block is never reached. -/
def tangled : FlowGraph Unit Unit where
  blocks := #[⟨[], .branch () 1 2⟩, ⟨[], .goto 2⟩, ⟨[], .branch () 1 3⟩, ⟨[], .branch () 3 4⟩,
    ⟨[], .exit⟩, ⟨[], .goto 0⟩]

theorem tangled_orders :
    0 < tangled.blocks.size ∧ tangled.Closed ∧ tangled.reversePostorder = [0, 1, 2, 3, 4] ∧
      tangled.Orders [0, 1, 2, 3, 4] := by
  have nonempty : 0 < tangled.blocks.size := by decide
  have closed : tangled.Closed := by
    unfold Closed
    decide
  have order : tangled.reversePostorder = [0, 1, 2, 3, 4] := by decide
  exact ⟨nonempty, closed, order, order ▸ (reversePostorder_orders tangled nonempty closed).1⟩

end Order

end NullFlow.FlowGraph
