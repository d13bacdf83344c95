import NullFlow.Proofs.FlowGraph.Loops
/-!
Graphs that are the same but for their stray blocks. The other blocks of two such graphs come in
pairs, which have the same order in both graphs and lead to pairs alone. The search leaves the
pairs in the same order, and the sources of a pair are pairs and stray blocks.
-/

namespace NullFlow

/-- Which block of one graph stands for which block of another one. -/
abbrev Pairing := BlockId → BlockId → Prop

namespace Pairing

/-- The blocks have the same order in both graphs. -/
def Ascending (paired : Pairing) : Prop :=
  ∀ ⦃left right other another : Nat⦄, paired left right → paired other another →
    (left < other ↔ right < another)

/-- No block of the other graph stands for the block. -/
def LeftStray (paired : Pairing) (left : BlockId) : Prop := ∀ right, ¬paired left right

def RightStray (paired : Pairing) (right : BlockId) : Prop := ∀ left, ¬paired left right

variable {paired : Pairing}

/-- Two blocks are the same if their twins are. -/
theorem Ascending.eq_iff (ascending : paired.Ascending) {left right other another : Nat}
    (pair : paired left right) (pairToo : paired other another) :
    left = other ↔ right = another := by
  have forward := ascending pair pairToo
  have back := ascending pairToo pair
  omega

/-- A block is among others if its twin is among their twins. -/
theorem Ascending.mem_iff (ascending : paired.Ascending) {left right : Nat}
    (isPair : paired left right) {lefts rights : List BlockId}
    (pairs : List.Forall₂ paired lefts rights) : left ∈ lefts ↔ right ∈ rights := by
  induction pairs with
  | nil => simp
  | cons pair rest ih => rw [List.mem_cons, List.mem_cons, ih, ascending.eq_iff isPair pair]

/-- Two lists of blocks that differ in stray blocks alone. -/
inductive Aligned (paired : Pairing) : List BlockId → List BlockId → Prop where
  | nil : Aligned paired [] []
  | pair {left right : BlockId} {lefts rights : List BlockId} (isPair : paired left right)
      (rest : Aligned paired lefts rights) : Aligned paired (left :: lefts) (right :: rights)
  | skipLeft {left : BlockId} {lefts rights : List BlockId} (stray : paired.LeftStray left)
      (rest : Aligned paired lefts rights) : Aligned paired (left :: lefts) rights
  | skipRight {right : BlockId} {lefts rights : List BlockId} (stray : paired.RightStray right)
      (rest : Aligned paired lefts rights) : Aligned paired lefts (right :: rights)

theorem aligned_nil {rights : List BlockId} (stray : ∀ right ∈ rights, paired.RightStray right) :
    Aligned paired [] rights := by
  induction rights with
  | nil => exact .nil
  | cons right rest ih =>
      exact .skipRight (stray right List.mem_cons_self)
        (ih fun other member => stray other (List.mem_cons_of_mem _ member))

/-- Ascending lists that have the same pairs differ in stray blocks alone. -/
theorem Ascending.aligned (ascending : paired.Ascending) {lefts rights : List Nat}
    (leftAscending : lefts.Pairwise (· < ·)) (rightAscending : rights.Pairwise (· < ·))
    (same : ∀ left right, paired left right → (left ∈ lefts ↔ right ∈ rights)) :
    Aligned paired lefts rights := by
  induction lefts generalizing rights with
  | nil =>
      refine aligned_nil fun right member left isPair => ?_
      exact List.not_mem_nil ((same left right isPair).mpr member)
  | cons left lefts ih =>
      obtain ⟨first, leftAscending⟩ := List.pairwise_cons.mp leftAscending
      by_cases stray : paired.LeftStray left
      · refine .skipLeft stray (ih leftAscending rightAscending fun other right isPair => ?_)
        rw [← same other right isPair, List.mem_cons, or_iff_right]
        rintro rfl
        exact stray right isPair
      · obtain ⟨twin, isPair⟩ : ∃ twin, paired left twin := by simpa [LeftStray] using stray
        have listed := (same left twin isPair).mp List.mem_cons_self
        -- What stands before the twin is stray, because its partner would come before the block.
        induction rights with
        | nil => cases listed
        | cons right rights inner =>
            obtain ⟨firstRight, rightsAscending⟩ := List.pairwise_cons.mp rightAscending
            by_cases isTwin : twin = right
            · subst isTwin
              refine .pair isPair (ih leftAscending rightsAscending fun other another pairToo => ?_)
              have members := same other another pairToo
              have equal := ascending.eq_iff isPair pairToo
              simp only [List.mem_cons] at members
              constructor
              · intro member
                have differs := Nat.ne_of_lt (first other member)
                have isRight := members.mp (Or.inr member)
                exact isRight.resolve_left fun isTwin => differs (equal.mpr isTwin.symm)
              · intro member
                have differs := Nat.ne_of_lt (firstRight another member)
                have isLeft := members.mpr (Or.inr member)
                exact isLeft.resolve_left fun isLeft => differs (equal.mp isLeft.symm)
            · have inRights : twin ∈ rights :=
                (List.mem_cons.mp listed).resolve_left isTwin
              have before := firstRight twin inRights
              have strayRight : paired.RightStray right := by
                intro other pairToo
                have isLeft := (same other right pairToo).mpr List.mem_cons_self
                have less := (ascending pairToo isPair).mpr before
                rcases List.mem_cons.mp isLeft with rfl | inLefts
                · exact Nat.lt_irrefl _ less
                · exact Nat.lt_asymm less (first other inLefts)
              refine .skipRight strayRight (inner rightsAscending (fun other another pairToo => ?_)
                inRights)
              rw [same other another pairToo, List.mem_cons, or_iff_right]
              rintro rfl
              exact strayRight other pairToo

/-- Lists that differ in stray blocks alone are folded alike, if stray blocks do nothing. -/
theorem Aligned.foldl_eq {Result : Type} {lefts rights : List BlockId}
    {onLeft onRight : Result → BlockId → Result} (aligned : Aligned paired lefts rights)
    (pairs : ∀ result left right, paired left right → onLeft result left = onRight result right)
    (leftStray : ∀ result left, paired.LeftStray left → onLeft result left = result)
    (rightStray : ∀ result right, paired.RightStray right → onRight result right = result)
    (result : Result) : lefts.foldl onLeft result = rights.foldl onRight result := by
  induction aligned generalizing result with
  | nil => rfl
  | pair isPair _ ih => rw [List.foldl_cons, List.foldl_cons, pairs _ _ _ isPair, ih]
  | skipLeft stray _ ih => rw [List.foldl_cons, leftStray _ _ stray, ih]
  | skipRight stray _ ih => rw [List.foldl_cons, rightStray _ _ stray, ih]

/-- Twins of equal results, and strays of none, have the same results together. -/
theorem Aligned.flatMap_eq {Result : Type} {lefts rights : List BlockId}
    {onLeft onRight : BlockId → List Result} (aligned : Aligned paired lefts rights)
    (pairs : ∀ left right, paired left right → onLeft left = onRight right)
    (leftStray : ∀ left, paired.LeftStray left → onLeft left = [])
    (rightStray : ∀ right, paired.RightStray right → onRight right = []) :
    lefts.flatMap onLeft = rights.flatMap onRight := by
  induction aligned with
  | nil => rfl
  | pair isPair _ ih => rw [List.flatMap_cons, List.flatMap_cons, pairs _ _ isPair, ih]
  | skipLeft stray _ ih => rw [List.flatMap_cons, leftStray _ stray, List.nil_append, ih]
  | skipRight stray _ ih => rw [List.flatMap_cons, rightStray _ stray, List.nil_append, ih]

end Pairing

section Twins

variable {Leaf Expr : Type} (paired : Pairing)

structure SwitchTarget.Twins (left right : SwitchTarget) : Prop where
  pattern? : left.pattern? = right.pattern?
  target : paired left.target right.target

/-- Terminators that do the same and lead to pairs. -/
inductive Terminator.Twins : Terminator Expr → Terminator Expr → Prop where
  | goto {left right : BlockId} (target : paired left right) : Twins (.goto left) (.goto right)
  | branch {condition : Expr} {leftTrue rightTrue leftFalse rightFalse : BlockId}
      (whenTrue : paired leftTrue rightTrue) (whenFalse : paired leftFalse rightFalse) :
      Twins (.branch condition leftTrue leftFalse) (.branch condition rightTrue rightFalse)
  | switch {scrutinee : Expr} {left right : List SwitchTarget}
      (targets : List.Forall₂ (SwitchTarget.Twins paired) left right) :
      Twins (.switch scrutinee left) (.switch scrutinee right)
  | returnValue {value? : Option Expr} {span : Span} :
      Twins (.returnValue value? span) (.returnValue value? span)
  | throwValue {value? : Option Expr} : Twins (.throwValue value?) (.throwValue value?)
  | exit : Twins .exit .exit

structure Block.Twins (left right : Block Leaf Expr) : Prop where
  steps : left.steps = right.steps
  terminator : left.terminator.Twins paired right.terminator

/-- Graphs that differ in stray blocks alone. -/
structure FlowGraph.Twins (left right : FlowGraph Leaf Expr) : Prop where
  ascending : paired.Ascending
  entry : paired FlowGraph.entry FlowGraph.entry
  blocks : ∀ id twin, paired id twin → ∃ block other, left.blocks[id]? = some block ∧
    right.blocks[twin]? = some other ∧ block.Twins paired other

variable {paired}

/-- Terminators stay twins when more twins are found. -/
theorem Terminator.Twins.mono {other : Pairing} {left right : Terminator Expr}
    (twins : left.Twins paired right) (more : ∀ id twin, paired id twin → other id twin) :
    left.Twins other right := by
  cases twins with
  | goto target => exact .goto (more _ _ target)
  | branch whenTrue whenFalse => exact .branch (more _ _ whenTrue) (more _ _ whenFalse)
  | switch targets =>
      exact .switch (targets.imp fun _ _ arm => ⟨arm.pattern?, more _ _ arm.target⟩)
  | returnValue => exact .returnValue
  | throwValue => exact .throwValue
  | exit => exact .exit

/-- The edges of twins go to twins. -/
theorem Terminator.Twins.targets {left right : Terminator Expr} (twins : left.Twins paired right) :
    List.Forall₂ paired (left.successors.map Prod.fst) (right.successors.map Prod.fst) := by
  cases twins with
  | goto target => exact .cons target .nil
  | branch whenTrue whenFalse => exact .cons whenTrue (.cons whenFalse .nil)
  | @switch scrutinee left right targets =>
      have leads (targets : List SwitchTarget) :
          (Terminator.switch scrutinee targets).successors.map Prod.fst =
            targets.map SwitchTarget.target := by
        rw [successors, List.map_map, ← List.zipIdx_map_fst 0 targets, List.map_map,
          List.zipIdx_map_fst]
        rfl
      rw [leads, leads]
      exact List.forall₂_map_left_iff.mpr
        (List.forall₂_map_right_iff.mpr (targets.imp fun _ _ arm => arm.target))
  | returnValue => exact .nil
  | throwValue => exact .nil
  | exit => exact .nil

end Twins

/-- Searches that have come to the same point. -/
structure Search.Twins (paired : Pairing) (left right : Search) : Prop where
  met : ∀ id twin, paired id twin → left.met.getD id true = right.met.getD twin true
  path : List.Forall₂ (fun entered other => paired entered.1 other.1 ∧
    List.Forall₂ paired entered.2 other.2) left.path right.path
  order : List.Forall₂ paired left.order right.order

namespace FlowGraph

variable {Leaf Expr : Type} {paired : Pairing} {left right : FlowGraph Leaf Expr}

section Order

section Search

variable (twins : Twins paired left right)
include twins

theorem Twins.leftInside {id twin : Nat} (isPair : paired id twin) : id < left.blocks.size := by
  obtain ⟨_, _, found, -, -⟩ := twins.blocks id twin isPair
  exact (Array.getElem?_eq_some_iff.mp found).1

theorem Twins.rightInside {id twin : Nat} (isPair : paired id twin) : twin < right.blocks.size := by
  obtain ⟨_, _, -, found, -⟩ := twins.blocks id twin isPair
  exact (Array.getElem?_eq_some_iff.mp found).1

/-- The numbers of all blocks differ in those of stray blocks alone. -/
theorem Twins.ranges :
    Pairing.Aligned paired (List.range left.blocks.size) (List.range right.blocks.size) := by
  refine twins.ascending.aligned List.pairwise_lt_range List.pairwise_lt_range
    fun id twin isPair => ?_
  simp [twins.leftInside isPair, twins.rightInside isPair]

/-- Pairs lead to pairs. -/
theorem Twins.targets {id twin : Nat} (isPair : paired id twin) :
    List.Forall₂ paired (left.targets id) (right.targets twin) := by
  obtain ⟨block, other, found, foundTwin, alike⟩ := twins.blocks id twin isPair
  rw [FlowGraph.targets, FlowGraph.targets, successors, successors, found, foundTwin]
  exact alike.terminator.targets

/-- Searches that enter twins stay twins. -/
theorem Twins.enter {search other : Search} (alike : search.Twins paired other) {id twin : Nat}
    (isPair : paired id twin) :
    (left.enter search id).Twins paired (right.enter other twin) := by
  have sameMet := alike.met id twin isPair
  by_cases isMet : Met search.met id
  · rw [enter_met isMet, enter_met (sameMet.symm.trans isMet)]
    exact alike
  · rw [enter_new isMet, enter_new fun isMetToo => isMet (sameMet.trans isMetToo)]
    refine ⟨fun another third pairToo => ?_, .cons ⟨isPair, twins.targets isPair⟩ alike.path,
      alike.order⟩
    have same := twins.ascending.eq_iff pairToo isPair
    simp only [entered, getD_set, alike.met another third pairToo, same]

/-- Searches of twins advance alike. -/
theorem Twins.advance {search other : Search} (alike : search.Twins paired other) :
    (left.advance search).Twins paired (right.advance other) := by
  obtain ⟨met, path, order⟩ := search
  obtain ⟨metToo, pathToo, orderToo⟩ := other
  obtain ⟨sameMet, paths, orders⟩ := alike
  cases paths with
  | nil => exact ⟨sameMet, .nil, orders⟩
  | @cons entered another around aroundToo here rest =>
      obtain ⟨id, todo⟩ := entered
      obtain ⟨twin, todoToo⟩ := another
      obtain ⟨isPair, targets⟩ := here
      cases targets with
      | nil => exact ⟨sameMet, rest, .cons isPair orders⟩
      | @cons _ _ todo todoToo isTarget targets =>
          have tried : Search.Twins paired ⟨met, (id, todo) :: around, order⟩
              ⟨metToo, (twin, todoToo) :: aroundToo, orderToo⟩ :=
            ⟨sameMet, .cons ⟨isPair, targets⟩ rest, orders⟩
          exact twins.enter tried isTarget

/-- Searches of twins stay twins for as many steps as they run. -/
theorem Twins.explore (steps : Nat) {search other : Search} (alike : search.Twins paired other) :
    (left.explore steps search).Twins paired (right.explore steps other) := by
  induction steps generalizing search other with
  | zero => exact alike
  | succ steps ih => exact ih (twins.advance alike)

/-- The search leaves the pairs in the same order and comes to no other blocks. -/
theorem Twins.reversePostorder :
    List.Forall₂ paired left.reversePostorder right.reversePostorder := by
  rw [reversePostorder_eq left (right.edgeCount + right.blocks.size),
    reversePostorder_eq right (left.edgeCount + left.blocks.size),
    Nat.add_comm (right.edgeCount + right.blocks.size)]
  refine (twins.explore _ (twins.enter ⟨fun id twin isPair => ?_, .nil, .nil⟩ twins.entry)).order
  have insideLeft := twins.leftInside isPair
  have insideRight := twins.rightInside isPair
  simp [Array.getD_eq_getD_getElem?, insideLeft, insideRight]

end Search

end Order

section Sources

theorem pairwise_eraseDups {items : List Nat} (ascending : items.Pairwise (· ≤ ·)) :
    items.eraseDups.Pairwise (· < ·) := by
  induction length : items.length using Nat.strong_induction_on generalizing items with
  | h length ih =>
      cases items with
      | nil => exact .nil
      | cons first rest =>
          obtain ⟨least, restAscending⟩ := List.pairwise_cons.mp ascending
          rw [List.eraseDups_cons]
          have shorter := List.length_filter_le (fun other => !other == first) rest
          refine .cons (fun other member => ?_)
            (ih _ (by simp only [List.length_cons] at length; omega) (restAscending.filter _) rfl)
          obtain ⟨inRest, differs⟩ := List.mem_filter.mp (List.mem_eraseDups.mp member)
          have differs : other ≠ first := by simpa using differs
          exact Nat.lt_of_le_of_ne (least other inRest) differs.symm

/-- The edges out of a block come before those out of later blocks. -/
theorem incoming_ascending (graph : FlowGraph Leaf Expr) (id : Nat) :
    ((graph.incoming.getD id []).map Prod.fst).Pairwise (· ≤ ·) := by
  let listed (table : Incoming) : List Nat := (table.getD id []).map Prod.fst
  have step (source : Nat) (edges : List (BlockId × EdgeKind)) (table : Incoming)
      (later : ∀ other ∈ listed table, source ≤ other) (sorted : (listed table).Pairwise (· ≤ ·)) :
      (∀ other ∈ listed (edges.foldr (Incoming.add source) table), source ≤ other) ∧
        (listed (edges.foldr (Incoming.add source) table)).Pairwise (· ≤ ·) := by
    induction edges with
    | nil => exact ⟨later, sorted⟩
    | cons edge rest ih =>
        obtain ⟨later, sorted⟩ := ih
        rw [List.foldr_cons]
        generalize rest.foldr (Incoming.add source) table = known at later sorted ⊢
        have added : listed (Incoming.add source edge known) = listed known ∨
            listed (Incoming.add source edge known) = source :: listed known := by
          simp only [listed, Incoming.add, Array.getD_eq_getD_getElem?, Array.getElem?_modify]
          cases known[id]? with
          | none => exact Or.inl (by simp)
          | some edges => by_cases same : edge.1 = id <;> simp [same]
        rcases added with same | longer
        · rw [same]
          exact ⟨later, sorted⟩
        · rw [longer]
          exact ⟨List.forall_mem_cons.mpr ⟨Nat.le_refl _, later⟩, .cons later sorted⟩
  have rounds (blocks : List (Block Leaf Expr)) (first : Nat) :
      let table := (blocks.zipIdx first).foldr (fun entry (table : Incoming) =>
        entry.1.terminator.successors.foldr (Incoming.add entry.2) table)
        (Array.replicate graph.blocks.size [])
      (∀ other ∈ listed table, first ≤ other) ∧ (listed table).Pairwise (· ≤ ·) := by
    induction blocks generalizing first with
    | nil =>
        have isEmpty : listed (Array.replicate graph.blocks.size []) = [] := by
          by_cases inside : id < graph.blocks.size <;> simp [listed, inside]
        simp [isEmpty]
    | cons block rest ih =>
        obtain ⟨later, sorted⟩ := ih (first + 1)
        rw [List.zipIdx_cons, List.foldr_cons]
        exact step first _ _ (fun other member => Nat.le_of_succ_le (later other member)) sorted
  exact (rounds graph.blocks.toList 0).2

/-- The sources of a block ascend. -/
theorem sources_ascending (graph : FlowGraph Leaf Expr) (id : Nat) :
    (graph.sources.getD id []).Pairwise (· < ·) := by
  have edges := incoming_ascending graph id
  rw [Array.getD_eq_getD_getElem?] at edges ⊢
  rw [sources, Array.getElem?_map]
  cases found : graph.incoming[id]? with
  | none => exact .nil
  | some listed =>
      rw [found] at edges
      exact pairwise_eraseDups edges

/-- Of the blocks that lead to a pair the pairs are the same in both graphs. -/
theorem Twins.sources (twins : Twins paired left right) {id twin : Nat} (isPair : paired id twin) :
    Pairing.Aligned paired (left.sources.getD id []) (right.sources.getD twin []) := by
  refine twins.ascending.aligned (sources_ascending left id) (sources_ascending right twin)
    fun source other isSource => ?_
  have leads {graph : FlowGraph Leaf Expr} {target source : Nat} (inside : target < graph.blocks.size) :
      source ∈ graph.sources.getD target [] ↔ target ∈ graph.targets source := by
    constructor
    · intro listed
      obtain ⟨kind, edge⟩ := edge_of_mem_sources listed
      exact List.mem_map.mpr ⟨(target, kind), edge, rfl⟩
    · intro isTarget
      obtain ⟨⟨_, kind⟩, edge, rfl⟩ := List.mem_map.mp isTarget
      exact mem_sources edge inside
  rw [leads (twins.leftInside isPair), leads (twins.rightInside isPair)]
  exact twins.ascending.mem_iff isPair (twins.targets isSource)

end Sources

end FlowGraph
end NullFlow
