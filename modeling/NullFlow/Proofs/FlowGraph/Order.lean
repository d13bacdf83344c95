import Mathlib.Algebra.BigOperators.Group.List.Basic
import Mathlib.Algebra.Ring.Nat
import Mathlib.Data.List.Nodup
import NullFlow.FlowGraph.Order
/-!
The depth-first search leaves every block that can be reached from the entry. It has enough steps:
every step tries an edge or leaves a block.
-/

namespace NullFlow.FlowGraph

variable {Leaf Expr : Type}

/-- Control can come to the block along the edges. -/
inductive Reachable (graph : FlowGraph Leaf Expr) : BlockId → Prop where
  | entry : Reachable graph FlowGraph.entry
  | step {source target : BlockId} {kind : EdgeKind} (before : Reachable graph source)
      (edge : (target, kind) ∈ graph.successors source) : Reachable graph target

variable {graph : FlowGraph Leaf Expr} {search : Search}

/-- The targets of the edges out of a block. -/
def targets (graph : FlowGraph Leaf Expr) (id : BlockId) : List BlockId :=
  (graph.successors id).map Prod.fst

section Invariant

/-- The search has met the block, or there is no such block. -/
def Met (met : Array Bool) (id : BlockId) : Prop := met.getD id true = true

theorem getD_set (met : Array Bool) (id other : Nat) :
    (met.setIfInBounds id true).getD other true = if other = id then true
      else met.getD other true := by
  rw [Array.getD_eq_getD_getElem?, Array.getElem?_setIfInBounds, Array.getD_eq_getD_getElem?]
  by_cases same : id = other
  · subst same
    rw [if_pos rfl, if_pos rfl]
    split <;> rfl
  · rw [if_neg same, if_neg (Ne.symm same)]

/-- A block once met stays met. -/
theorem met_set {met : Array Bool} {other : BlockId} (isMet : Met met other) (id : BlockId) :
    Met (met.setIfInBounds id true) other := by
  rw [Met, getD_set]
  split
  · rfl
  · exact isMet

/-- What the search has met it is going to leave or has left, and it tries all edges. -/
structure Searching (graph : FlowGraph Leaf Expr) (search : Search) : Prop where
  size : search.met.size = graph.blocks.size
  kept : ∀ id : Nat, id < graph.blocks.size → Met search.met id →
    id ∈ search.path.map Prod.fst ∨ id ∈ search.order
  path : ∀ entered ∈ search.path, ∀ target ∈ graph.targets entered.1,
    target ∈ entered.2 ∨ Met search.met target
  order : ∀ id ∈ search.order, ∀ target ∈ graph.targets id, Met search.met target

/-- The search enters a block that it has not met. -/
def entered (graph : FlowGraph Leaf Expr) (search : Search) (id : BlockId) : Search :=
  { search with
    met := search.met.setIfInBounds id true
    path := (id, graph.targets id) :: search.path }

/-- The search does not enter a block again. -/
theorem enter_met {id : BlockId} (isMet : Met search.met id) : graph.enter search id = search :=
  if_pos isMet

/-- The search enters a block that it has not met. -/
theorem enter_new {id : BlockId} (isNew : ¬Met search.met id) :
    graph.enter search id = entered graph search id :=
  if_neg isNew

/-- A search that enters a block is a search still. -/
theorem Searching.entered (searching : Searching graph search) (id : BlockId) :
    Searching graph (FlowGraph.entered graph search id) where
  size := by simpa [FlowGraph.entered] using searching.size
  kept other inside isMet := by
    by_cases same : other = id
    · exact Or.inl (by simp [FlowGraph.entered, same])
    · simp only [FlowGraph.entered, Met, getD_set, if_neg same] at isMet
      refine (searching.kept other inside isMet).imp_left fun member => ?_
      exact List.mem_cons_of_mem _ member
  path := by
    refine List.forall_mem_cons.mpr ⟨fun target isTarget => Or.inl isTarget, ?_⟩
    intro around member target isTarget
    exact (searching.path around member target isTarget).imp_right fun isMet => met_set isMet id
  order other member target isTarget := met_set (searching.order other member target isTarget) id

/-- Trying a target or leaving a block keeps the search going. -/
theorem Searching.advance (searching : Searching graph search) :
    Searching graph (graph.advance search) := by
  obtain ⟨met, path, order⟩ := search
  match path with
  | [] => exact searching
  | (id, []) :: around =>
      refine ⟨searching.size, fun other inside isMet => ?_, fun entered member => ?_,
        fun other member => ?_⟩
      · rcases searching.kept other inside isMet with inPath | inOrder
        · rcases List.mem_cons.mp inPath with rfl | inAround
          · exact Or.inr List.mem_cons_self
          · exact Or.inl inAround
        · exact Or.inr (List.mem_cons_of_mem _ inOrder)
      · exact searching.path entered (List.mem_cons_of_mem _ member)
      · intro target isTarget
        rcases List.mem_cons.mp member with rfl | inOrder
        · have tried := searching.path (other, []) List.mem_cons_self target isTarget
          exact tried.resolve_left List.not_mem_nil
        · exact searching.order other inOrder target isTarget
  | (id, target :: rest) :: around =>
      change Searching graph (graph.enter ⟨met, (id, rest) :: around, order⟩ target)
      by_cases isMet : Met met target
      · rw [enter_met isMet]
        refine ⟨searching.size, searching.kept, List.forall_mem_cons.mpr
          ⟨fun other isTarget => ?_, ?_⟩, searching.order⟩
        · rcases searching.path (id, target :: rest) List.mem_cons_self other isTarget with
            toTry | isMetOther
          · rcases List.mem_cons.mp toTry with rfl | inRest
            · exact Or.inr isMet
            · exact Or.inl inRest
          · exact Or.inr isMetOther
        · exact fun entered member => searching.path entered (List.mem_cons_of_mem _ member)
      · rw [enter_new isMet]
        have atTarget : Met (met.setIfInBounds target true) target := by
          rw [Met, getD_set, if_pos rfl]
        obtain ⟨size, kept, path, order⟩ := searching.entered target
        refine ⟨size, kept, ?_, order⟩
        refine List.forall_mem_cons.mpr ⟨fun _ isTarget => Or.inl isTarget,
          List.forall_mem_cons.mpr ⟨fun other isTarget => ?_, fun entered member => ?_⟩⟩
        · rcases searching.path (id, target :: rest) List.mem_cons_self other isTarget with
            toTry | isMetOther
          · rcases List.mem_cons.mp toTry with rfl | inRest
            · exact Or.inr atTarget
            · exact Or.inl inRest
          · exact Or.inr (met_set isMetOther target)
        · exact path entered (List.mem_cons_of_mem _ (List.mem_cons_of_mem _ member))

end Invariant

section Measure

/-- The edges out of blocks that the search has not met, and the blocks themselves. -/
def unmet (graph : FlowGraph Leaf Expr) (met : Array Bool) : Nat :=
  ((List.range graph.blocks.size).map fun id =>
    if met.getD id true then 0 else 1 + (graph.targets id).length).sum

/-- The edges to try from the blocks around the current point, and the blocks themselves. -/
def pending (path : List (BlockId × List BlockId)) : Nat :=
  (path.map fun entered => 1 + entered.2.length).sum

/-- The steps that the search may still make. -/
def left (graph : FlowGraph Leaf Expr) (search : Search) : Nat :=
  unmet graph search.met + pending search.path

theorem pending_cons (id : BlockId) (todo : List BlockId) (around : List (BlockId × List BlockId)) :
    pending ((id, todo) :: around) = 1 + todo.length + pending around := by
  rw [pending, List.map_cons, List.sum_cons]
  rfl

/-- Meeting a block takes its edges off those that are left. -/
theorem unmet_set {met : Array Bool} (size : met.size = graph.blocks.size) {id : Nat}
    (isNew : ¬Met met id) :
    1 + (graph.targets id).length + unmet graph (met.setIfInBounds id true) = unmet graph met := by
  have notMet : ¬met.getD id true = true := isNew
  have inside : id < met.size := by
    by_contra outside
    exact notMet (by simp [Array.getD_eq_getD_getElem?, outside])
  have member : id ∈ List.range graph.blocks.size := List.mem_range.mpr (size ▸ inside)
  have others : ((List.range graph.blocks.size).erase id).map (fun other =>
        if (met.setIfInBounds id true).getD other true then 0
        else 1 + (graph.targets other).length) =
      ((List.range graph.blocks.size).erase id).map fun other =>
        if met.getD other true then 0 else 1 + (graph.targets other).length := by
    refine List.map_congr_left fun other inOthers => ?_
    rw [getD_set, if_neg (List.nodup_range.mem_erase_iff.mp inOthers).1]
  have now := List.sum_map_erase (fun other =>
    if (met.setIfInBounds id true).getD other true then 0
    else 1 + (graph.targets other).length) member
  have before := List.sum_map_erase (fun other =>
    if met.getD other true then 0 else 1 + (graph.targets other).length) member
  rw [others, getD_set, if_pos rfl, if_pos rfl, Nat.zero_add] at now
  rw [if_neg notMet] at before
  rw [unmet, unmet, ← now, before]

/-- A block that is entered is met no more, but its edges are to be tried. -/
theorem left_entered (size : search.met.size = graph.blocks.size) {id : Nat}
    (isNew : ¬Met search.met id) : left graph (entered graph search id) = left graph search := by
  have fewer := unmet_set size isNew
  simp only [left, entered, pending_cons]
  omega

/-- Every step of the search takes one off what is left to do. -/
theorem left_advance (searching : Searching graph search) (nonempty : search.path ≠ []) :
    left graph (graph.advance search) + 1 = left graph search := by
  obtain ⟨met, path, order⟩ := search
  match path with
  | [] => exact absurd rfl nonempty
  | (id, []) :: around =>
      change unmet graph met + pending around + 1 = unmet graph met + pending ((id, []) :: around)
      rw [pending_cons, List.length_nil]
      omega
  | (id, target :: rest) :: around =>
      have tried : left graph ⟨met, (id, rest) :: around, order⟩ + 1 =
          left graph ⟨met, (id, target :: rest) :: around, order⟩ := by
        simp only [left, pending_cons, List.length_cons]
        omega
      change left graph (graph.enter ⟨met, (id, rest) :: around, order⟩ target) + 1 = _
      by_cases isMet : Met met target
      · rw [enter_met isMet, tried]
      · have same : left graph (entered graph ⟨met, (id, rest) :: around, order⟩ target) =
            left graph ⟨met, (id, rest) :: around, order⟩ := by
          apply left_entered
          · exact searching.size
          · exact isMet
        rw [enter_new isMet, same, tried]

/-- A search that has ended stays as it is. -/
theorem explore_ended (ended : search.path = []) (steps : Nat) :
    graph.explore steps search = search := by
  induction steps with
  | zero => rfl
  | succ steps ih =>
      have same : graph.advance search = search := by rw [advance, ended]
      rw [explore, same, ih]

/-- The search ends if it may make as many steps as are left. -/
theorem explore_ends {steps : Nat} (searching : Searching graph search)
    (enough : left graph search ≤ steps) :
    Searching graph (graph.explore steps search) ∧ (graph.explore steps search).path = [] := by
  induction steps generalizing search with
  | zero =>
      refine ⟨searching, ?_⟩
      rw [explore]
      by_contra nonempty
      have step := left_advance searching nonempty
      omega
  | succ steps ih =>
      by_cases ended : search.path = []
      · rw [explore_ended ended]
        exact ⟨searching, ended⟩
      · have step := left_advance searching ended
        exact ih searching.advance (by omega)

/-- What was met stays met. -/
theorem met_explore {id : BlockId} (steps : Nat) (isMet : Met search.met id) :
    Met (graph.explore steps search).met id := by
  induction steps generalizing search with
  | zero => exact isMet
  | succ steps ih =>
      refine ih ?_
      obtain ⟨met, path, order⟩ := search
      match path with
      | [] => exact isMet
      | (_, []) :: around => exact isMet
      | (inner, target :: rest) :: around =>
          change Met (graph.enter ⟨met, (inner, rest) :: around, order⟩ target).met id
          by_cases isMetTarget : Met met target
          · rw [enter_met isMetTarget]
            exact isMet
          · rw [enter_new isMetTarget]
            exact met_set isMet target

/-- The graph has as many targets as edges. -/
theorem sum_targets (graph : FlowGraph Leaf Expr) :
    ((List.range graph.blocks.size).map fun id => 1 + (graph.targets id).length).sum =
      graph.edgeCount + graph.blocks.size := by
  have each : (List.range graph.blocks.size).map (fun id => 1 + (graph.targets id).length) =
      graph.blocks.toList.map fun block => 1 + block.terminator.successors.length := by
    refine List.ext_getElem (by simp) fun id inside _ => ?_
    have inGraph : id < graph.blocks.size := by simpa using inside
    simp [targets, successors, inGraph]
  have sum : ∀ blocks : List (Block Leaf Expr),
      (blocks.map fun block => 1 + block.terminator.successors.length).sum =
        (blocks.flatMap fun block => block.terminator.successors).length + blocks.length := by
    intro blocks
    induction blocks with
    | nil => rfl
    | cons block rest ih =>
        simp only [List.map_cons, List.sum_cons, List.flatMap_cons, List.length_append,
          List.length_cons, ih]
        omega
  rw [each, sum]
  rfl

end Measure

section Complete

/-- At the beginning all blocks are still to be met. -/
theorem left_start (graph : FlowGraph Leaf Expr) :
    left graph ⟨Array.replicate graph.blocks.size false, [], []⟩ =
      graph.edgeCount + graph.blocks.size := by
  have unmet : FlowGraph.unmet graph (Array.replicate graph.blocks.size false) =
      ((List.range graph.blocks.size).map fun id => 1 + (graph.targets id).length).sum := by
    refine congrArg List.sum (List.map_congr_left fun id inside => ?_)
    have inGraph : id < graph.blocks.size := List.mem_range.mp inside
    simp [Array.getD_eq_getD_getElem?, inGraph]
  rw [left, unmet, sum_targets]
  rfl

theorem searching_start (graph : FlowGraph Leaf Expr) :
    Searching graph ⟨Array.replicate graph.blocks.size false, [], []⟩ where
  size := by simp
  kept id inside isMet := by simp [Met, Array.getD_eq_getD_getElem?, inside] at isMet
  path _ member := by cases member
  order _ member := by cases member

/-- Edges start in the graph. -/
theorem inside_of_edge {source target : Nat} {kind : EdgeKind}
    (edge : (target, kind) ∈ graph.successors source) : source < graph.blocks.size := by
  by_contra outside
  rw [successors, Array.getElem?_eq_none (Nat.le_of_not_lt outside)] at edge
  cases edge

/-- The search at the entry of the graph. -/
def started (graph : FlowGraph Leaf Expr) : Search :=
  graph.enter ⟨Array.replicate graph.blocks.size false, [], []⟩ entry

theorem started_new (nonempty : 0 < graph.blocks.size) :
    graph.started = entered graph ⟨Array.replicate graph.blocks.size false, [], []⟩ entry := by
  refine enter_new ?_
  have inside : (entry : Nat) < graph.blocks.size := nonempty
  simp [Met, Array.getD_eq_getD_getElem?, inside]

theorem searching_started (graph : FlowGraph Leaf Expr) : Searching graph graph.started := by
  by_cases isMet : Met (Array.replicate graph.blocks.size false) entry
  · rw [started, enter_met isMet]
    exact searching_start graph
  · rw [started, enter_new isMet]
    exact (searching_start graph).entered entry

/-- What is left at the start are all edges and all blocks. -/
theorem left_started (graph : FlowGraph Leaf Expr) :
    left graph graph.started = graph.edgeCount + graph.blocks.size := by
  by_cases isMet : Met (Array.replicate graph.blocks.size false) entry
  · rw [started, enter_met isMet, left_start]
  · rw [started, enter_new isMet, left_entered (searching_start graph).size isMet, left_start]

/-- The search ends within as many steps as there are edges and blocks. -/
theorem started_ends (graph : FlowGraph Leaf Expr) {steps : Nat}
    (enough : graph.edgeCount + graph.blocks.size ≤ steps) :
    Searching graph (graph.explore steps graph.started) ∧
      (graph.explore steps graph.started).path = [] :=
  explore_ends (searching_started graph) ((left_started graph).trans_le enough)

/-- A search may pause and go on. -/
theorem explore_add (graph : FlowGraph Leaf Expr) (steps more : Nat) (search : Search) :
    graph.explore (steps + more) search = graph.explore more (graph.explore steps search) := by
  induction steps generalizing search with
  | zero => rw [Nat.zero_add, explore]
  | succ steps ih => rw [Nat.add_right_comm, explore, ih, explore]

/-- The search has ended after the steps that it may make, so that more steps add nothing. -/
theorem reversePostorder_eq (graph : FlowGraph Leaf Expr) (more : Nat) :
    graph.reversePostorder = (graph.explore (graph.edgeCount + graph.blocks.size + more)
      (graph.enter ⟨Array.replicate graph.blocks.size false, [], []⟩ entry)).order := by
  have ended := (started_ends graph (Nat.le_refl _)).2
  rw [started] at ended
  rw [explore_add, explore_ended ended]
  rfl

/-- The search leaves every block that control can come to. -/
theorem mem_reversePostorder {id : BlockId} (reachable : graph.Reachable id)
    (inside : (id : Nat) < graph.blocks.size) : id ∈ graph.reversePostorder := by
  obtain ⟨searching, ended⟩ := started_ends graph (Nat.le_refl _)
  have atEntry : Met graph.started.met entry := by
    rw [started_new (Nat.zero_lt_of_lt inside), Met, entered, getD_set, if_pos rfl]
  have left : ∀ {other : Nat}, other < graph.blocks.size →
      Met (graph.explore (graph.edgeCount + graph.blocks.size) graph.started).met other →
      other ∈ graph.reversePostorder := by
    intro other within isMet
    refine (searching.kept other within isMet).resolve_left ?_
    rw [ended]
    exact List.not_mem_nil
  refine left inside ?_
  clear inside
  induction reachable with
  | entry => exact met_explore _ atEntry
  | step before edge ih =>
      have isLeft := left (inside_of_edge edge) ih
      exact searching.order _ isLeft _ (List.mem_map_of_mem edge)

end Complete

end NullFlow.FlowGraph
