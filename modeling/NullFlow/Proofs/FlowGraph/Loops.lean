import Mathlib.Algebra.Order.Field.Rat
import NullFlow.Proofs.FlowGraph.Edges
import NullFlow.Proofs.FlowGraph.Tours
/-!
Graphs in which every loop is entered at its head. Control comes to every block along edges that
lead forward, and the depth-first search lists the source of a forward edge before its target. One
pass over the blocks in this order follows control everywhere.
-/

namespace NullFlow

/-- Where a block stands in the structure of the code. -/
structure Placement where
  /-- Forward edges lead to higher ranks. -/
  rank : ℚ
  /-- The heads of the loops around the block. A head lies in its own loop. -/
  heads : List BlockId

/-- An edge leads forward or back to the head of a loop. A loop is entered at its head. -/
structure Joins (place : BlockId → Placement) (source target : BlockId) : Prop where
  direction : (place source).rank < (place target).rank ∨ target ∈ (place source).heads
  inward : ∀ head ∈ (place target).heads, head = target ∨ head ∈ (place source).heads

namespace FlowGraph

variable {Leaf Expr : Type}

/-- All edges of the graph keep to the placement. -/
structure Structured (graph : FlowGraph Leaf Expr) (place : BlockId → Placement) : Prop where
  nonempty : 0 < graph.blocks.size
  outside : (place entry).heads = []
  inside : ∀ {source target : Nat} {kind : EdgeKind}, (target, kind) ∈ graph.successors source →
    target < graph.blocks.size
  joins : ∀ {source target : Nat} {kind : EdgeKind}, (target, kind) ∈ graph.successors source →
    Joins place source target

variable {graph : FlowGraph Leaf Expr} {place : BlockId → Placement}

section Arrival

/-- Control can come to the block along edges of a kind. -/
inductive Arrives (graph : FlowGraph Leaf Expr) (passes : BlockId → EdgeKind → Prop) :
    BlockId → Prop where
  | entry : Arrives graph passes entry
  | step {source target : BlockId} {kind : EdgeKind} (before : Arrives graph passes source)
      (edge : (target, kind) ∈ graph.successors source) (isOpen : passes source kind) :
      Arrives graph passes target

/-- Control can come to the block along so many edges of a kind. -/
inductive ArrivesIn (graph : FlowGraph Leaf Expr) (passes : BlockId → EdgeKind → Prop) :
    Nat → BlockId → Prop where
  | entry : ArrivesIn graph passes 0 entry
  | step {count : Nat} {source target : BlockId} {kind : EdgeKind}
      (before : ArrivesIn graph passes count source)
      (edge : (target, kind) ∈ graph.successors source) (isOpen : passes source kind) :
      ArrivesIn graph passes (count + 1) target

/-- Control can come to the block along forward edges of a kind. -/
inductive ArrivesForward (graph : FlowGraph Leaf Expr) (place : BlockId → Placement)
    (passes : BlockId → EdgeKind → Prop) : BlockId → Prop where
  | entry : ArrivesForward graph place passes entry
  | step {source target : BlockId} {kind : EdgeKind}
      (before : ArrivesForward graph place passes source)
      (edge : (target, kind) ∈ graph.successors source) (isOpen : passes source kind)
      (forward : (place source).rank < (place target).rank) :
      ArrivesForward graph place passes target

variable {passes : BlockId → EdgeKind → Prop}

/-- A way through the graph takes some number of passes. -/
theorem Arrives.count {block : BlockId} (arrives : graph.Arrives passes block) :
    ∃ count, graph.ArrivesIn passes count block := by
  induction arrives with
  | entry => exact ⟨0, .entry⟩
  | step before edge isOpen ih =>
      obtain ⟨count, counted⟩ := ih
      exact ⟨count + 1, .step counted edge isOpen⟩

/-- A block at which a way arrives is reachable. -/
theorem Arrives.reachable {block : BlockId} (arrives : graph.Arrives passes block) :
    graph.Reachable block := by
  induction arrives with
  | entry => exact .entry
  | step before edge isOpen ih => exact .step ih edge

/-- A way that goes forward is a way. -/
theorem ArrivesForward.arrives {block : BlockId}
    (arrives : graph.ArrivesForward place passes block) : graph.Arrives passes block := by
  induction arrives with
  | entry => exact .entry
  | step before edge isOpen forward ih => exact .step ih edge isOpen

/-- Reachable blocks of a structured graph lie in the graph. -/
theorem Structured.lt_size (structured : graph.Structured place) {block : Nat}
    (reachable : graph.Reachable block) : block < graph.blocks.size := by
  cases reachable with
  | entry => exact structured.nonempty
  | step before edge => exact structured.inside edge

/-- On the way into a loop control comes by its head. -/
theorem Structured.by_head (structured : graph.Structured place) {count : Nat} {block : BlockId}
    (arrives : graph.ArrivesIn passes count block) {head : BlockId}
    (around : head ∈ (place block).heads) :
    ∃ fewer, fewer ≤ count ∧ graph.ArrivesIn passes fewer head := by
  induction arrives with
  | entry =>
      rw [structured.outside] at around
      cases around
  | @step count source target kind before edge isOpen ih =>
      rcases (structured.joins edge).inward head around with rfl | aroundSource
      · exact ⟨count + 1, Nat.le_refl _, .step before edge isOpen⟩
      · obtain ⟨fewer, less, arrives⟩ := ih aroundSource
        exact ⟨fewer, Nat.le_succ_of_le less, arrives⟩

/-- A shortest way to a block does not go back to the head of a loop. -/
theorem Structured.forward (structured : graph.Structured place) {block : BlockId}
    (arrives : graph.Arrives passes block) : graph.ArrivesForward place passes block := by
  obtain ⟨count, counted⟩ := arrives.count
  clear arrives
  induction count using Nat.strong_induction_on generalizing block with
  | _ count ih =>
      cases counted with
      | entry => exact .entry
      | @step count source target kind before edge isOpen =>
          rcases (structured.joins edge).direction with forward | back
          · exact .step (ih count (Nat.lt_succ_self _) before) edge isOpen forward
          · obtain ⟨fewer, less, sooner⟩ := structured.by_head before back
            exact ih fewer (Nat.lt_succ_of_le less) sooner

end Arrival

section Search

/-- The blocks around the current point of a search lead forward to it, and every loop around a
block was entered at its head. -/
def Descends (place : BlockId → Placement) : List BlockId → Prop
  | [] => True
  | block :: around =>
      (∀ head ∈ (place block).heads, head ∈ block :: around) ∧
      (∀ outer ∈ around, (place outer).rank < (place block).rank) ∧ Descends place around

/-- The search lists every block once, and the source of a forward edge before its target. -/
structure Listing (graph : FlowGraph Leaf Expr) (place : BlockId → Placement) (search : Search) :
    Prop where
  descends : Descends place (search.path.map Prod.fst)
  met : ∀ id ∈ search.path.map Prod.fst, Met search.met id
  left : ∀ id ∈ search.order, Met search.met id
  apart : ∀ id ∈ search.path.map Prod.fst, id ∉ search.order
  nodup : search.order.Nodup
  todo : ∀ entered ∈ search.path, ∀ target ∈ entered.2, target ∈ graph.targets entered.1
  reached : ∀ id, id ∈ search.path.map Prod.fst ∨ id ∈ search.order → graph.Reachable id
  before : ∀ source ∈ search.order, ∀ target ∈ graph.targets source,
    (place source).rank < (place target).rank → [source, target].Sublist search.order

variable {search : Search}

/-- An edge of a structured graph goes forward, or back to the head of a loop around it. -/
theorem Structured.joins_target (structured : graph.Structured place) {source target : BlockId}
    (isTarget : target ∈ graph.targets source) :
    Joins place source target ∧ target < graph.blocks.size := by
  obtain ⟨⟨other, kind⟩, edge, rfl⟩ := List.mem_map.mp isTarget
  exact ⟨structured.joins edge, structured.inside edge⟩

/-- A descent goes on with a new block that the last one joins. -/
theorem Descends.enter {source target : BlockId} {around : List BlockId}
    (descends : Descends place (source :: around)) (joins : Joins place source target)
    (isNew : target ∉ source :: around) : Descends place (target :: source :: around) := by
  obtain ⟨heads, ranks, inner⟩ := descends
  have forward : (place source).rank < (place target).rank := by
    apply joins.direction.resolve_right
    intro back
    exact isNew (heads target back)
  refine ⟨?_, ?_, heads, ranks, inner⟩
  · intro head isHead
    rcases joins.inward head isHead with rfl | outer
    · exact List.mem_cons_self
    · exact List.mem_cons_of_mem _ (heads head outer)
  · intro outer member
    rcases List.mem_cons.mp member with rfl | further
    · exact forward
    · exact lt_trans (ranks outer further) forward

theorem Structured.closed (structured : graph.Structured place) : graph.Closed :=
  closed_iff.mpr fun edge => structured.inside edge

/-- What a search keeps on every graph, and how it keeps to the placement. -/
theorem Touring.listing (touring : Touring graph search)
    (descends : Descends place (search.path.map Prod.fst))
    (before : ∀ source ∈ search.order, ∀ target ∈ graph.targets source,
      (place source).rank < (place target).rank → [source, target].Sublist search.order) :
    Listing graph place search where
  descends := descends
  met id inPath := touring.met id (Or.inl inPath)
  left id inOrder := touring.met id (Or.inr inOrder)
  apart id inPath inOrder := (List.nodup_append.mp touring.once).2.2 id inPath id inOrder rfl
  nodup := (List.nodup_append.mp touring.once).2.1
  todo := touring.todo
  reached := touring.reached
  before := before

/-- The search enters a block of an edge that it tries. -/
theorem Listing.enter (structured : graph.Structured place) {id target : BlockId}
    {todo : List BlockId} {around : List (BlockId × List BlockId)} {met : Array Bool}
    {order : List BlockId}
    (listing : Listing graph place ⟨met, (id, target :: todo) :: around, order⟩)
    (touring : Touring graph (graph.enter ⟨met, (id, todo) :: around, order⟩ target)) :
    Listing graph place (graph.enter ⟨met, (id, todo) :: around, order⟩ target) := by
  by_cases isMet : Met met target
  · rw [enter_met isMet] at touring ⊢
    exact touring.listing listing.descends listing.before
  · rw [enter_new isMet] at touring ⊢
    have isTarget := listing.todo _ List.mem_cons_self target List.mem_cons_self
    have isNew : target ∉ ((id, target :: todo) :: around).map Prod.fst := fun inPath =>
      isMet (listing.met target inPath)
    exact touring.listing
      (listing.descends.enter (structured.joins_target isTarget).1 isNew) listing.before

/-- The search leaves a block after all targets of forward edges out of it. -/
theorem Listing.leave (structured : graph.Structured place) {id : BlockId}
    {around : List (BlockId × List BlockId)} {met : Array Bool} {order : List BlockId}
    (searching : Searching graph ⟨met, (id, []) :: around, order⟩)
    (listing : Listing graph place ⟨met, (id, []) :: around, order⟩)
    (touring : Touring graph ⟨met, around, id :: order⟩) :
    Listing graph place ⟨met, around, id :: order⟩ := by
  obtain ⟨-, ranks, inner⟩ := listing.descends
  refine touring.listing inner fun source member target isTarget forward => ?_
  rcases List.mem_cons.mp member with rfl | wasLeft
  · apply List.Sublist.cons_cons source
    rw [List.singleton_sublist]
    have tried := searching.path (source, []) List.mem_cons_self target isTarget
    have isMet := tried.resolve_left List.not_mem_nil
    rcases searching.kept target (structured.joins_target isTarget).2 isMet with inPath | inOrder
    · -- A block around the current point has a lower rank.
      rcases List.mem_cons.mp inPath with rfl | further
      · exact absurd forward (lt_irrefl _)
      · exact absurd (ranks target further) (not_lt_of_gt forward)
    · exact inOrder
  · exact (listing.before source wasLeft target isTarget forward).cons id

/-- One step of the search keeps the order of what is listed. -/
theorem Listing.advance (structured : graph.Structured place) (searching : Searching graph search)
    (listing : Listing graph place search) (touring : Touring graph (graph.advance search)) :
    Listing graph place (graph.advance search) := by
  obtain ⟨met, path, order⟩ := search
  match path with
  | [] => exact listing
  | (_, []) :: _ => exact listing.leave structured searching touring
  | (_, _ :: _) :: _ => exact listing.enter structured touring

/-- The search keeps the order of what is listed, for as many steps as it runs. -/
theorem Listing.explore (structured : graph.Structured place) (steps : Nat)
    (searching : Searching graph search) (touring : Touring graph search)
    (listing : Listing graph place search) : Listing graph place (graph.explore steps search) := by
  induction steps generalizing search with
  | zero => exact listing
  | succ steps ih =>
      have tours := touring.advance structured.closed searching
      exact ih searching.advance tours (listing.advance structured searching tours)

end Search

section Order

/-- The search begins at the entry. -/
theorem Structured.listing_explored (structured : graph.Structured place) : ∃ search,
    Listing graph place search ∧ search.order = graph.reversePostorder := by
  have touring := touring_started structured.nonempty
  have listing : Listing graph place graph.started := by
    rw [started_new structured.nonempty] at touring ⊢
    refine touring.listing ⟨?_, fun _ member => ?_, trivial⟩ fun _ member => ?_
    · rw [structured.outside]
      exact fun _ member => absurd member List.not_mem_nil
    · cases member
    · cases member
  exact ⟨_, listing.explore structured _ (searching_started graph) touring, rfl⟩

/-- The order of the blocks has no block twice, and the source of a forward edge stands before its
target. -/
theorem Structured.listing (structured : graph.Structured place) :
    graph.reversePostorder.Nodup ∧ ∀ source ∈ graph.reversePostorder,
      ∀ target ∈ graph.targets source, (place source).rank < (place target).rank →
        [source, target].Sublist graph.reversePostorder := by
  obtain ⟨search, listing, isOrder⟩ := structured.listing_explored
  rw [← isOrder]
  exact ⟨listing.nodup, listing.before⟩

/-- The search meets the blocks that control can come to and no others. -/
theorem Structured.mem_order_iff (structured : graph.Structured place) {id : BlockId} :
    id ∈ graph.reversePostorder ↔ graph.Reachable id := by
  constructor
  · intro inOrder
    obtain ⟨search, listing, isOrder⟩ := structured.listing_explored
    exact listing.reached id (Or.inr (isOrder ▸ inOrder))
  · intro reachable
    exact mem_reversePostorder reachable (structured.lt_size reachable)

end Order

section Range

/-- All numbers of blocks that are found in the graph point to its blocks. -/
structure InRange (graph : FlowGraph Leaf Expr) : Prop where
  entry : (entry : Nat) < graph.blocks.size
  targets : ∀ {source target : Nat} {kind : EdgeKind}, (target, kind) ∈ graph.successors source →
    target < graph.blocks.size
  sources : ∀ {source target : Nat}, source ∈ graph.sources.getD target [] →
    source < graph.blocks.size
  order : ∀ id ∈ graph.reversePostorder, (id : Nat) < graph.blocks.size

theorem Structured.inRange (structured : graph.Structured place) : graph.InRange where
  entry := structured.nonempty
  targets edge := structured.inside edge
  sources listed := by
    obtain ⟨kind, edge⟩ := edge_of_mem_sources listed
    exact inside_of_edge edge
  order id inOrder := structured.lt_size (structured.mem_order_iff.mp inOrder)

end Range

end FlowGraph
end NullFlow
