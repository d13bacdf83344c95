import Mathlib.Data.List.Nodup
import NullFlow.Proofs.Body.Reach
/-!
How deep the nodes of a valid body nest. The walk that checks a body meets every node along one
path of bounded length. It does not go through a node a second time, so a path that comes to a
shared node another way can be longer.
-/

namespace NullFlow

namespace Body

/-- The nodes lead from the root to the node in front. Each node lies directly inside the one that
follows it in the list. -/
inductive Path (body : Body) : List NodeId → Prop where
  | root : Path body [.stmt body.root]
  | inside {node parent : NodeId} {around : List NodeId} (contains : body.Contains parent node)
      (before : Path body (parent :: around)) : Path body (node :: parent :: around)

/-- The node lies directly inside two nodes of the body. -/
def Shared (body : Body) (node : NodeId) : Prop :=
  ∃ first second, first ≠ second ∧ body.Reaches first ∧ body.Reaches second ∧
    body.Contains first node ∧ body.Contains second node

open scoped Classical in
/-- The number of shared nodes among the nodes. -/
noncomputable def sharedCount (body : Body) (nodes : List NodeId) : Nat :=
  nodes.countP fun node => decide (body.Shared node)

variable {body : Body}

section Paths

/-- A path from the root leads to reachable nodes. -/
theorem Path.reaches {node : NodeId} {around : List NodeId} (path : body.Path (node :: around)) :
    body.Reaches node := by
  generalize same : node :: around = nodes at path
  induction path generalizing node around with
  | root =>
      cases same
      exact .refl
  | inside contains before ih =>
      cases same
      exact .tail (ih rfl) contains

/-- A shared node counts. -/
theorem sharedCount_cons_of_shared {node : NodeId} (shared : body.Shared node)
    (around : List NodeId) :
    body.sharedCount (node :: around) = body.sharedCount around + 1 := by
  simp [sharedCount, shared]

theorem sharedCount_le_cons (node : NodeId) (around : List NodeId) :
    body.sharedCount around ≤ body.sharedCount (node :: around) := by
  simp only [sharedCount, List.countP_cons]
  omega

/-- A node with one parent is entered from that parent on every path. -/
theorem parent_eq_of_not_shared {node first second : NodeId} (notShared : ¬body.Shared node)
    (reachesFirst : body.Reaches first) (reachesSecond : body.Reaches second)
    (inFirst : body.Contains first node) (inSecond : body.Contains second node) :
    first = second := by
  by_contra different
  apply notShared
  exact ⟨first, second, different, reachesFirst, reachesSecond, inFirst, inSecond⟩

end Paths

section Walk

/-- Every node among the nodes ends a path that the nesting bound admits. -/
def Bounded (body : Body) (nodes : List NodeId) : Prop :=
  ∀ node ∈ nodes, ∃ around, body.Path (node :: around) ∧ around.length < maxNesting

/-- A node whose path is short enough joins the bounded ones. -/
theorem bounded_cons {node : NodeId} {around nodes : List NodeId}
    (path : body.Path (node :: around)) (short : around.length < maxNesting)
    (bounded : body.Bounded nodes) : body.Bounded (node :: nodes) := by
  intro other member
  rcases List.mem_cons.mp member with rfl | later
  · exact ⟨around, path, short⟩
  · exact bounded other later

/-- A loop over children keeps what every round keeps. -/
theorem foldlM_keeps {keeps : List NodeId → Prop} {children : List NodeId}
    {step : List NodeId → NodeId → Except Defect (List NodeId)}
    (each : ∀ child ∈ children, ∀ finished result, keeps finished →
      step finished child = .ok result → keeps result)
    {finished result : List NodeId} (start : keeps finished)
    (walked : children.foldlM step finished = .ok result) : keeps result := by
  induction children generalizing finished with
  | nil =>
      obtain rfl : finished = result := by simpa [pure, Except.pure] using walked
      exact start
  | cons child rest ih =>
      obtain ⟨next, first, others⟩ := foldlM_cons_ok walked
      have kept : keeps next := each child List.mem_cons_self finished next start first
      apply ih (fun other member => each other (List.mem_cons_of_mem _ member)) kept others

/-- The walk enters a node only if the nodes around it leave room for one more level. -/
theorem walk_bounded {levels : Nat} {around finished result : List NodeId} {node : NodeId}
    (path : body.Path (node :: around)) (room : around.length + levels = maxNesting)
    (bounded : body.Bounded finished)
    (walked : body.walk levels around finished node = .ok result) : body.Bounded result := by
  induction levels generalizing around finished result node with
  | zero =>
      rcases walk_ok_cases walked with ⟨-, rfl⟩ | ⟨fewer, children, inside, impossible, -⟩
      · exact bounded
      · cases impossible
  | succ levels ih =>
      rcases walk_ok_cases walked with ⟨-, rfl⟩ |
        ⟨fewer, children, inside, same, -, -, found, inner, rfl⟩
      · exact bounded
      · cases same
        apply bounded_cons path (by omega)
        apply foldlM_keeps (fun child member finished result kept ran => ?_) bounded inner
        have contains : body.Contains node child := ⟨children, found, by simpa using member⟩
        apply ih (.inside contains path) _ kept ran
        simp only [List.length_cons]
        omega

end Walk

section Valid

variable (valid : body.validate = .ok ())

include valid

/-- The walk comes to every node along a path that the nesting bound admits. -/
theorem valid_bounded {node : NodeId} (reached : body.Reaches node) :
    ∃ around, body.Path (node :: around) ∧ around.length < maxNesting := by
  obtain ⟨nodes, walked⟩ := valid_walked valid
  obtain ⟨result, hasRoot⟩ := walk_walked (by exact trivial) walked
  have bounded : body.Bounded nodes :=
    walk_bounded .root (by simp) (fun _ member => by cases member) walked
  exact bounded node (result.founded.reached hasRoot reached)

/-- No node lies inside itself. -/
theorem valid_acyclic {node : NodeId} (reached : body.Reaches node) :
    ¬Relation.TransGen body.Contains node node := by
  apply valid_induct valid (motive := fun node => ¬Relation.TransGen body.Contains node node) _
    reached
  intro node children found apart cycle
  obtain ⟨child, contains, back⟩ := Relation.TransGen.head'_iff.mp cycle
  obtain ⟨others, same, member⟩ := contains
  obtain rfl : children = others := by simpa [found] using same
  apply apart child member
  exact Relation.TransGen.tail' back ⟨children, found, member⟩

/-- No reachable node contains the root. -/
theorem root_not_inside {parent : NodeId} (reached : body.Reaches parent) :
    ¬body.Contains parent (.stmt body.root) := by
  intro contains
  apply valid_acyclic valid reached
  exact Relation.TransGen.head' contains reached

/-- Two paths to a node differ in length by less than a full nesting for every shared node on the
longer one. -/
theorem Path.length_le {path : List NodeId} (long : body.Path path) :
    ∀ other, body.Path other → other.head? = path.head? →
      path.length ≤ other.length + (maxNesting - 1) * body.sharedCount path := by
  induction long with
  | root =>
      intro other short same
      have positive : 0 < other.length := by cases short <;> simp
      simp only [List.length_singleton]
      omega
  | @inside node parent around contains before ih =>
      intro other short same
      cases short with
      | root =>
          obtain rfl : NodeId.stmt body.root = node := by simpa using same
          exact absurd contains (root_not_inside valid before.reaches)
      | @inside otherNode otherParent otherAround otherContains otherBefore =>
          obtain rfl : otherNode = node := by simpa using same
          by_cases shared : body.Shared otherNode
          · -- The bounded path to the parent makes up for all nodes outside the shared one.
            obtain ⟨bounded, toParent, room⟩ := valid_bounded valid before.reaches
            have inParent := ih _ toParent rfl
            rw [sharedCount_cons_of_shared shared]
            simp only [List.length_cons, maxNesting] at inParent room ⊢
            omega
          · obtain rfl : parent = otherParent :=
              parent_eq_of_not_shared shared before.reaches otherBefore.reaches contains
                otherContains
            have inParent := ih _ otherBefore rfl
            have fewer : body.sharedCount (parent :: around) ≤
                body.sharedCount (otherNode :: parent :: around) := sharedCount_le_cons _ _
            simp only [List.length_cons, maxNesting] at inParent ⊢
            omega

end Valid

/-- A path from the root of a valid body has at most as many nodes as the nesting bound admits, and
one less than that for every shared node on the path. -/
theorem nesting_bounded (body : Body) (valid : body.validate = .ok ()) (path : List NodeId)
    (descends : body.Path path) :
    path.length ≤ maxNesting + (maxNesting - 1) * body.sharedCount path := by
  cases descends with
  | root =>
      simp only [List.length_singleton, maxNesting]
      omega
  | @inside node parent around contains before =>
      have whole : body.Path (node :: parent :: around) := .inside contains before
      obtain ⟨bounded, toNode, room⟩ := valid_bounded valid whole.reaches
      have compared := whole.length_le valid (node :: bounded) toNode rfl
      simp only [List.length_cons] at compared room ⊢
      omega

section Casts

/-- Casts nested in each other below two statements. The last statement, which is walked first,
enters them half way. -/
def sharedCasts : Body where
  name := "M"
  span? := none
  thisType? := none
  parameters := []
  returnType := .void
  locals := #[]
  exprs := (⟨.literal .null, none, .none⟩ ::
    (List.range 254).map fun id => ⟨.cast id, none, .none⟩).toArray
  stmts := #[⟨.evaluate 128, .none⟩, ⟨.evaluate 254, .none⟩, ⟨.block [1, 0], .none⟩]
  root := 2

/-- A leaf is finished as soon as it is met. -/
theorem walk_leaf {levels : Nat} {around finished : List NodeId} {node : NodeId}
    (leaf : body.children? node = some []) (notFinished : node ∉ finished)
    (notAround : node ∉ around) :
    body.walk (levels + 1) around finished node = .ok (node :: finished) := by
  unfold walk
  simp [notFinished, notAround, leaf, bind, Except.bind, pure, Except.pure]

/-- A node with one part is finished after that part. -/
theorem walk_single {levels : Nat} {around finished result : List NodeId} {node child : NodeId}
    (single : body.children? node = some [child]) (notFinished : node ∉ finished)
    (notAround : node ∉ around)
    (walked : body.walk levels (node :: around) finished child = .ok result) :
    body.walk (levels + 1) around finished node = .ok (node :: result) := by
  unfold walk
  simp [notFinished, notAround, single, walked, bind, Except.bind, pure, Except.pure]

/-- Of two parts the second one is walked first. -/
theorem walk_pair {levels : Nat} {around finished middle result : List NodeId}
    {node first second : NodeId} (pair : body.children? node = some [first, second])
    (notFinished : node ∉ finished) (notAround : node ∉ around)
    (early : body.walk levels (node :: around) finished second = .ok middle)
    (late : body.walk levels (node :: around) middle first = .ok result) :
    body.walk (levels + 1) around finished node = .ok (node :: result) := by
  unfold walk
  simp [notFinished, notAround, pair, early, late, bind, Except.bind, pure, Except.pure]

theorem sharedCasts_cast {id : Nat} (inside : id < 254) :
    sharedCasts.children? (.expr (id + 1)) = some [.expr id] := by
  have inArena : id < (List.range 254).length := by simpa using inside
  simp [children?, sharedCasts, List.getElem?_eq_getElem inArena, ExprKind.children]

/-- The walk goes down from a cast to one below it, and finishes the casts between them. -/
theorem sharedCasts_walk {low bottom : Nat} {finished base : List NodeId}
    (atLow : ∀ levels around, bottom ≤ levels → (∀ id : Nat, .expr id ∈ around → low < id) →
      sharedCasts.walk levels around finished (.expr low) = .ok base) (count : Nat)
    (inside : low + count ≤ 254) (fresh : ∀ id : Nat, low < id → .expr id ∉ finished) :
    ∀ levels around, bottom + count ≤ levels → (∀ id : Nat, .expr id ∈ around → low + count < id) →
      ∃ result, sharedCasts.walk levels around finished (.expr (low + count)) = .ok result ∧
        ∀ node, node ∈ result ↔
          node ∈ base ∨ ∃ id : Nat, low < id ∧ id ≤ low + count ∧ node = .expr id := by
  induction count with
  | zero =>
      intro levels around room above
      refine ⟨base, atLow levels around room above, fun node => ?_⟩
      constructor
      · exact Or.inl
      · rintro (inBase | ⟨id, higher, lower, -⟩)
        · exact inBase
        · omega
  | succ count ih =>
      intro levels around room above
      obtain ⟨levels, rfl⟩ : ∃ fewer, levels = fewer + 1 := ⟨levels - 1, by omega⟩
      have notFinished : NodeId.expr (low + count + 1) ∉ finished := fresh _ (by omega)
      have notAround : NodeId.expr (low + count + 1) ∉ around := by
        intro member
        have := above _ member
        omega
      obtain ⟨result, walked, members⟩ := ih (by omega) levels (.expr (low + count + 1) :: around)
        (by omega) (by
          intro id member
          rcases List.mem_cons.mp member with same | inAround
          · cases same
            omega
          · have := above id inAround
            omega)
      refine ⟨.expr (low + count + 1) :: result, ?_, fun node => ?_⟩
      · have belowTop : low + count < 254 := by omega
        exact walk_single (sharedCasts_cast belowTop) notFinished notAround walked
      · rw [List.mem_cons, members]
        constructor
        · rintro (rfl | inBase | ⟨id, higher, lower, rfl⟩)
          · exact Or.inr ⟨_, by omega, by omega, rfl⟩
          · exact Or.inl inBase
          · exact Or.inr ⟨id, higher, by omega, rfl⟩
        · rintro (inBase | ⟨id, higher, lower, rfl⟩)
          · exact Or.inr (Or.inl inBase)
          · by_cases top : id = low + count + 1
            · exact Or.inl (by rw [top])
            · exact Or.inr (Or.inr ⟨id, higher, by omega, rfl⟩)

/-- All ids of the body point into its arenas. -/
theorem sharedCasts_covered :
    (sharedCasts.references.find? fun reference => !sharedCasts.covers reference) = none := by
  decide +kernel

/-- The second way down ends at the cast where the first one began. -/
theorem sharedCasts_valid : sharedCasts.validate = .ok () := by
  have leaf : sharedCasts.children? (.expr 0) = some [] := by
    simp [children?, sharedCasts, ExprKind.children]
  have atLeaf : ∀ levels around, 1 ≤ levels → (∀ id : Nat, .expr id ∈ around → 0 < id) →
      sharedCasts.walk levels around [] (.expr 0) = .ok [.expr 0] := by
    intro levels around room above
    obtain ⟨levels, rfl⟩ : ∃ fewer, levels = fewer + 1 := ⟨levels - 1, by omega⟩
    have notAround : NodeId.expr 0 ∉ around := fun member => absurd (above 0 member) (by omega)
    exact walk_leaf leaf List.not_mem_nil notAround
  obtain ⟨inner, walkedInner, inInner⟩ := sharedCasts_walk atLeaf 128 (by omega) (by simp) 254
    [.stmt 0, .stmt 2] (by omega) (by simp)
  simp only [Nat.zero_add] at walkedInner inInner
  have first : sharedCasts.walk 255 [.stmt 2] [] (.stmt 0) = .ok (.stmt 0 :: inner) :=
    walk_single rfl List.not_mem_nil (by decide) walkedInner
  have shared : NodeId.expr 128 ∈ NodeId.stmt 0 :: inner :=
    List.mem_cons_of_mem _ ((inInner _).mpr (Or.inr ⟨128, by omega, by omega, rfl⟩))
  have atShared : ∀ levels around, 0 ≤ levels → (∀ id : Nat, .expr id ∈ around → 128 < id) →
      sharedCasts.walk levels around (.stmt 0 :: inner) (.expr 128) = .ok (.stmt 0 :: inner) :=
    fun levels around _ _ => walk_finished shared
  have fresh : ∀ id : Nat, 128 < id → NodeId.expr id ∉ NodeId.stmt 0 :: inner := by
    intro id higher member
    rcases List.mem_cons.mp member with same | inside
    · cases same
    · rcases (inInner _).mp inside with bottom | ⟨other, -, under, same⟩
      · cases List.mem_singleton.mp bottom
        omega
      · cases same
        omega
  obtain ⟨outer, walkedOuter, -⟩ := sharedCasts_walk atShared 126 (by omega) fresh 254
    [.stmt 1, .stmt 2] (by omega) (by simp)
  simp only [Nat.reduceAdd] at walkedOuter
  have notFinished : NodeId.stmt 1 ∉ NodeId.stmt 0 :: inner := by
    intro member
    rcases List.mem_cons.mp member with same | inside
    · cases same
    · rcases (inInner _).mp inside with bottom | ⟨other, -, -, same⟩
      · cases List.mem_singleton.mp bottom
      · cases same
  have second : sharedCasts.walk 255 [.stmt 2] (.stmt 0 :: inner) (.stmt 1) =
      .ok (.stmt 1 :: outer) := walk_single rfl notFinished (by decide) walkedOuter
  have whole : sharedCasts.walk maxNesting [] [] (.stmt 2) =
      .ok (.stmt 2 :: .stmt 1 :: outer) := by
    have parts : sharedCasts.children? (.stmt 2) = some [.stmt 1, .stmt 0] := rfl
    exact walk_pair parts List.not_mem_nil List.not_mem_nil first second
  rw [validate, sharedCasts_covered]
  change (sharedCasts.walk maxNesting [] [] (.stmt 2)).map _ = _
  rw [whole]
  rfl

/-- The path through the outer statement comes to all casts. -/
theorem sharedCasts_path : ∀ depth : Nat, depth ≤ 254 →
    ∃ around, sharedCasts.Path (.expr (254 - depth) :: around) ∧ around.length = depth + 2 := by
  intro depth
  induction depth with
  | zero =>
      intro _
      refine ⟨[.stmt 1, .stmt 2], .inside ?_ (.inside ?_ .root), rfl⟩
      · exact ⟨[.expr 254], rfl, List.mem_cons_self⟩
      · exact ⟨[.stmt 1, .stmt 0], rfl, List.mem_cons_self⟩
  | succ depth ih =>
      intro inside
      obtain ⟨around, path, length⟩ := ih (by omega)
      have outer : 254 - depth = 254 - (depth + 1) + 1 := by omega
      rw [outer] at path
      refine ⟨_, .inside ⟨_, sharedCasts_cast (by omega), List.mem_cons_self⟩ path, ?_⟩
      simp [length]

/-- Some path of the casts has more nodes than the bound admits, although the body is valid. -/
theorem sharedCasts_exceeds_nesting : sharedCasts.validate = .ok () ∧
    ∃ path, sharedCasts.Path path ∧ ¬path.length ≤ maxNesting := by
  obtain ⟨around, path, length⟩ := sharedCasts_path 254 (by omega)
  refine ⟨sharedCasts_valid, _, path, ?_⟩
  simp [length, maxNesting]

/-- A body with shared casts is accepted, and a path through it is longer than the limit, but within
the bound. -/
theorem sharedCasts_nesting_bounded : sharedCasts.validate = .ok () ∧
    ∃ path, sharedCasts.Path path ∧ maxNesting < path.length ∧
      path.length ≤ maxNesting + (maxNesting - 1) * sharedCasts.sharedCount path := by
  obtain ⟨around, path, length⟩ := sharedCasts_path 254 (by omega)
  refine ⟨sharedCasts_valid, _, path, by simp [length, maxNesting], ?_⟩
  exact nesting_bounded sharedCasts sharedCasts_valid _ path

end Casts

end Body

end NullFlow
