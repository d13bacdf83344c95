import NullFlow.Proofs.Code.Pruning
import NullFlow.Proofs.Execution.Lowering
import NullFlow.Proofs.FlowGraph.Twins
/-!
The lowering of pruned code. Dead statements go to blocks that no jump, loop or switch outside them
leads to, so that they add nothing but stray blocks to the graph.
-/

namespace NullFlow

variable {Leaf Expr : Type} {paired : Pairing}

/-- Blocks stand for each other, or new blocks at the same distance from the first new ones. -/
def Pairing.withNew (paired : Pairing) (left right count : Nat) : Pairing := fun id twin =>
  paired id twin ∨ ∃ way < count, id = left + way ∧ twin = right + way

/-- Jumps out of loops and switches that lead to pairs. -/
inductive Jumps.Twins (paired : Pairing) : Option Jumps → Option Jumps → Prop where
  | none : Twins paired none none
  | some {head headToo after afterToo : BlockId} (continueTo : paired head headToo)
      (breakTo : paired after afterToo) : Twins paired (some ⟨head, after⟩) (some ⟨headToo, afterToo⟩)

/-- Jumps that go to twins do so when more twins are found. -/
theorem Jumps.Twins.mono {more : Pairing} {left right : Option Jumps}
    (twins : Jumps.Twins paired left right) (kept : ∀ id twin, paired id twin → more id twin) :
    Jumps.Twins more left right := by
  cases twins with
  | none => exact .none
  | some continueTo breakTo => exact .some (kept _ _ continueTo) (kept _ _ breakTo)

namespace Draft

/-- Drafts that differ in stray blocks alone. The current blocks are a pair, or both are stray. -/
structure Twins (paired : Pairing) (left right : Draft Leaf Expr) : Prop where
  ascending : paired.Ascending
  blocks : ∀ id twin, paired id twin → ∃ block other, left.block? id = some block ∧
    right.block? twin = some other ∧ block.Twins paired other
  leftOpen : left.IsOpen
  rightOpen : right.IsOpen
  current : paired left.current right.current ∨
    paired.LeftStray left.current ∧ paired.RightStray right.current

/-- Drafts that differ in stray blocks alone, among them all pairs of before. -/
def TwinsOver (paired : Pairing) (left right : Draft Leaf Expr) : Prop :=
  ∃ more : Pairing, (∀ id twin, paired id twin → more id twin) ∧ left.Twins more right

variable {left right : Draft Leaf Expr} (twins : left.Twins paired right)
include twins

/-- Twins are blocks of their drafts. -/
theorem Twins.old {id twin : Nat} (isPair : paired id twin) : id < left.next ∧ twin < right.next := by
  obtain ⟨_, _, found, foundTwin, -⟩ := twins.blocks id twin isPair
  exact ⟨lt_next left found, lt_next right foundTwin⟩

/-- One draft works on a block if the other works on its twin. -/
theorem Twins.current_iff {id twin : Nat} (isPair : paired id twin) :
    id = left.current ↔ twin = right.current := by
  rcases twins.current with currents | ⟨leftStray, rightStray⟩
  · exact twins.ascending.eq_iff isPair currents
  · constructor
    · rintro rfl
      exact (leftStray twin isPair).elim
    · rintro rfl
      exact (rightStray id isPair).elim

/-- A change of the current blocks that keeps them twins. -/
theorem Twins.modify {after afterToo : Draft Leaf Expr}
    (change changeToo : Block Leaf Expr → Block Leaf Expr)
    (keeps : ∀ block other, Block.Twins paired block other →
      Block.Twins paired (change block) (changeToo other))
    (changed : ∀ id, after.block? id =
      if id = left.current then (left.block? id).map change else left.block? id)
    (changedToo : ∀ id, afterToo.block? id =
      if id = right.current then (right.block? id).map changeToo else right.block? id)
    (next : after.next = left.next) (nextToo : afterToo.next = right.next)
    (current : after.current = left.current) (currentToo : afterToo.current = right.current) :
    after.Twins paired afterToo where
  ascending := twins.ascending
  blocks id twin isPair := by
    obtain ⟨block, other, found, foundTwin, alike⟩ := twins.blocks id twin isPair
    have same := twins.current_iff isPair
    rw [changed, changedToo, found, foundTwin]
    by_cases isCurrent : id = left.current
    · rw [if_pos isCurrent, if_pos (same.mp isCurrent)]
      exact ⟨change block, changeToo other, rfl, rfl, keeps block other alike⟩
    · rw [if_neg isCurrent, if_neg fun isTwin => isCurrent (same.mpr isTwin)]
      exact ⟨block, other, rfl, rfl, alike⟩
  leftOpen := by rw [IsOpen, current, next]; exact twins.leftOpen
  rightOpen := by rw [IsOpen, currentToo, nextToo]; exact twins.rightOpen
  current := by rw [current, currentToo]; exact twins.current

/-- Drafts stay twins when they end their blocks alike. -/
theorem Twins.finish {terminator other : Terminator Expr}
    (alike : terminator.Twins paired other) :
    (left.finish terminator).Twins paired (right.finish other) :=
  twins.modify (fun block => { block with terminator })
    (fun block => { block with terminator := other })
    (fun _ _ blocks => ⟨blocks.steps, alike⟩) (block?_finish left terminator)
    (block?_finish right other) (next_finish ..) (next_finish ..) rfl rfl

theorem Twins.push (step : Step Leaf Expr) : (left.push step).Twins paired (right.push step) :=
  twins.modify (fun block => { block with steps := block.steps ++ [step] })
    (fun block => { block with steps := block.steps ++ [step] })
    (fun _ _ blocks => ⟨congrArg (· ++ [step]) blocks.steps, blocks.terminator⟩)
    (block?_push left step) (block?_push right step) (next_push ..) (next_push ..) rfl rfl

/-- Drafts stay twins when they turn to twins. -/
theorem Twins.switchTo {id twin : Nat} (isPair : paired id twin) :
    (left.switchTo id).Twins paired (right.switchTo twin) :=
  ⟨twins.ascending, twins.blocks, (twins.old isPair).1, (twins.old isPair).2, Or.inl isPair⟩

/-- New empty blocks form pairs. -/
theorem Twins.reserve (count : Nat) : ∃ more : Pairing,
    (∀ id twin, paired id twin → more id twin) ∧
    (∀ way < count, more (left.next + way) (right.next + way)) ∧
    (left.reserve count).Twins more (right.reserve count) := by
  refine ⟨paired.withNew left.next right.next count, fun _ _ => Or.inl,
    fun way isWay => Or.inr ⟨way, isWay, rfl, rfl⟩, ?_, ?_, ?_, ?_, ?_⟩
  · rintro id twin other another (isPair | ⟨way, isWay, rfl, rfl⟩)
      (pairToo | ⟨wayToo, isWayToo, rfl, rfl⟩)
    · exact twins.ascending isPair pairToo
    · have old := twins.old isPair
      omega
    · have old := twins.old pairToo
      omega
    · omega
  · rintro id twin (isPair | ⟨way, isWay, rfl, rfl⟩)
    · obtain ⟨block, other, found, foundTwin, alike⟩ := twins.blocks id twin isPair
      obtain ⟨old, oldTwin⟩ := twins.old isPair
      exact ⟨block, other, by rw [block?_reserve_old _ _ old, found],
        by rw [block?_reserve_old _ _ oldTwin, foundTwin], alike.steps,
        alike.terminator.mono fun _ _ => Or.inl⟩
    · exact ⟨⟨[], .exit⟩, ⟨[], .exit⟩, block?_reserve_new _ _ (Nat.le_add_right _ _)
        (Nat.add_lt_add_left isWay _),
        block?_reserve_new _ _ (Nat.le_add_right _ _)
        (Nat.add_lt_add_left isWay _), rfl, .exit⟩
  · rw [IsOpen, next_reserve]
    exact Nat.lt_add_right count twins.leftOpen
  · rw [IsOpen, next_reserve]
    exact Nat.lt_add_right count twins.rightOpen
  · have isOpen : left.current < left.next := twins.leftOpen
    have isOpenToo : right.current < right.next := twins.rightOpen
    refine twins.current.imp Or.inl fun ⟨leftStray, rightStray⟩ => ⟨?_, ?_⟩
    · rintro twin (isPair | ⟨way, isWay, same, -⟩)
      · exact leftStray twin isPair
      · exact Nat.not_lt.mpr (Nat.le_add_right left.next way) (same ▸ isOpen)
    · rintro id (isPair | ⟨way, isWay, -, same⟩)
      · exact rightStray id isPair
      · exact Nat.not_lt.mpr (Nat.le_add_right right.next way) (same ▸ isOpenToo)

/-- What follows a jump goes to stray blocks. -/
theorem Twins.jump {terminator other : Terminator Expr} (alike : terminator.Twins paired other) :
    (left.jump terminator).Twins paired (right.jump other) ∧
      paired.RightStray (right.jump other).current := by
  have finished := twins.finish alike
  have leftStray : paired.LeftStray left.next := fun twin isPair =>
    Nat.lt_irrefl _ (twins.old isPair).1
  have rightStray : paired.RightStray right.next := fun id isPair =>
    Nat.lt_irrefl _ (twins.old isPair).2
  refine ⟨⟨twins.ascending, fun id twin isPair => ?_, ?_, ?_, Or.inr ⟨leftStray, rightStray⟩⟩,
    rightStray⟩
  · obtain ⟨block, another, found, foundTwin, blocks⟩ := finished.blocks id twin isPair
    obtain ⟨old, oldTwin⟩ := finished.old isPair
    exact ⟨block, another, by rw [Draft.jump, block?_switchTo, block?_reserve_old _ _ old, found],
      by rw [Draft.jump, block?_switchTo, block?_reserve_old _ _ oldTwin, foundTwin], blocks⟩
  · simp [IsOpen, Draft.jump]
  · simp [IsOpen, Draft.jump]

/-- Code in stray blocks makes no difference. -/
theorem Twins.dead {after : Draft Leaf Expr} (stray : paired.RightStray right.current)
    (grows : Grows right after) : left.Twins paired after where
  ascending := twins.ascending
  blocks id twin isPair := by
    obtain ⟨block, other, found, foundTwin, alike⟩ := twins.blocks id twin isPair
    refine ⟨block, other, found, ?_, alike⟩
    rw [grows.frame twin (twins.old isPair).2, foundTwin]
    rintro rfl
    exact stray id isPair
  leftOpen := twins.leftOpen
  rightOpen := grows.isOpen
  current := by
    have leftStray : paired.LeftStray left.current :=
      (twins.current.resolve_left (stray left.current)).1
    refine Or.inr ⟨leftStray, fun id isPair => ?_⟩
    rcases grows.current with same | new
    · exact stray id (same ▸ isPair)
    · exact Nat.not_lt.mpr new (twins.old isPair).2

end Draft

section Lowering

open Draft

theorem patterns_prunedArms (arms : List (Arm (Stmt Leaf Expr))) :
    (Stmt.prunedArms arms).map Arm.pattern? = arms.map Arm.pattern? := by
  induction arms with
  | nil => rfl
  | cons arm rest ih => rw [Stmt.prunedArms, List.map_cons, ih, List.map_cons]

theorem length_prunedArms (arms : List (Arm (Stmt Leaf Expr))) :
    (Stmt.prunedArms arms).length = arms.length := by
  have patterns := congrArg List.length (patterns_prunedArms arms)
  simpa using patterns

/-- Drafts stay twins through the updates of a loop. -/
theorem updates_twins (updates : List Expr) {left right : Draft Leaf Expr}
    (twins : left.Twins paired right) :
    (updates.foldl (fun draft expr => draft.push (.update expr)) left).Twins paired
      (updates.foldl (fun draft expr => draft.push (.update expr)) right) := by
  induction updates generalizing left right with
  | nil => exact twins
  | cons expr rest ih => exact ih (twins.push (.update expr))

/-- After a jump both drafts go on in stray blocks. -/
theorem lower_jump {stmt : Stmt Leaf Expr} (isJump : stmt.isJump = true)
    {left right : Draft Leaf Expr} {jumps? jumpsToo? : Option Jumps}
    (twins : left.Twins paired right) (jumps : Jumps.Twins paired jumps? jumpsToo?) :
    (lower jumps? stmt left).Twins paired (lower jumpsToo? stmt right) ∧
      paired.RightStray (lower jumpsToo? stmt right).current := by
  cases stmt with
  | breakOut =>
      cases jumps with
      | none => exact twins.jump .exit
      | some _ breakTo => exact twins.jump (.goto breakTo)
  | continueLoop =>
      cases jumps with
      | none => exact twins.jump .exit
      | some continueTo _ => exact twins.jump (.goto continueTo)
  | returnValue value? span => exact twins.jump .returnValue
  | throwValue value? => exact twins.jump .throwValue
  | _ => cases isJump

/-- A jump has nothing to prune. -/
theorem pruned_of_isJump {stmt : Stmt Leaf Expr} (isJump : stmt.isJump = true) :
    stmt.pruned = stmt := by
  cases stmt with
  | breakOut | continueLoop | returnValue | throwValue => rfl
  | _ => cases isJump

/-- The ways out of a switch lead to pairs if its new blocks are pairs. -/
theorem targets_twins {first twin after afterToo : BlockId} (patterns : List (Option Pattern))
    (arms : ∀ way < patterns.length, paired (first + way) (twin + way))
    (leaves : paired after afterToo) :
    let otherwise (target : BlockId) : List SwitchTarget :=
      if patterns.all Option.isSome then [⟨none, target⟩] else []
    List.Forall₂ (SwitchTarget.Twins paired)
      ((patterns.zipIdx.map fun (pattern?, index) => ⟨pattern?, first + index⟩) ++ otherwise after)
      ((patterns.zipIdx.map fun (pattern?, index) => ⟨pattern?, twin + index⟩) ++
        otherwise afterToo) := by
  refine List.rel_append ?_ ?_
  · rw [List.forall₂_map_left_iff, List.forall₂_map_right_iff, List.forall₂_same]
    rintro ⟨pattern?, index⟩ member
    exact ⟨rfl, arms index (List.snd_lt_of_mem_zipIdx member)⟩
  · split
    · exact .cons ⟨rfl, leaves⟩ .nil
    · exact .nil

mutual

/-- A pruned statement is lowered to the same blocks as the statement itself, but for stray
blocks. -/
theorem lower_pruned : ∀ (stmt : Stmt Leaf Expr) {paired : Pairing} {left right : Draft Leaf Expr}
    {jumps? jumpsToo? : Option Jumps}, left.Twins paired right →
    Jumps.Twins paired jumps? jumpsToo? →
    TwinsOver paired (lower jumps? stmt.pruned left) (lower jumpsToo? stmt right)
  | .simple leaf, paired, _, _, _, _, twins, _ => ⟨paired, fun _ _ => id, twins.push (.simple leaf)⟩
  | .empty, paired, _, _, _, _, twins, _ => ⟨paired, fun _ _ => id, twins⟩
  | .block stmts, _, _, _, _, _, twins, jumps => lowerAll_pruned stmts twins jumps
  | .ifElse condition thenBranch none, paired, _, _, _, _, twins, jumps => by
      obtain ⟨opened, inOpened, new, reserved⟩ := twins.reserve 2
      have whenTrue := new 0 (by omega)
      have join := new 1 (by omega)
      obtain ⟨last, inLast, branch⟩ := lower_pruned thenBranch
        ((reserved.finish (.branch whenTrue join)).switchTo whenTrue) (jumps.mono inOpened)
      have join := inLast _ _ join
      exact ⟨last, fun _ _ isPair => inLast _ _ (inOpened _ _ isPair),
        (branch.finish (.goto join)).switchTo join⟩
  | .ifElse condition thenBranch (some elseBranch), paired, _, _, _, _, twins, jumps => by
      obtain ⟨opened, inOpened, new, reserved⟩ := twins.reserve 3
      have whenTrue := new 0 (by omega)
      have whenFalse := new 1 (by omega)
      have join := new 2 (by omega)
      have jumps := jumps.mono inOpened
      obtain ⟨half, inHalf, branch⟩ := lower_pruned thenBranch
        ((reserved.finish (.branch whenTrue whenFalse)).switchTo whenTrue) jumps
      have join := inHalf _ _ join
      obtain ⟨last, inLast, otherBranch⟩ := lower_pruned elseBranch
        ((branch.finish (.goto join)).switchTo (inHalf _ _ whenFalse)) (jumps.mono inHalf)
      have join := inLast _ _ join
      exact ⟨last, fun _ _ isPair => inLast _ _ (inHalf _ _ (inOpened _ _ isPair)),
        (otherBranch.finish (.goto join)).switchTo join⟩
  | .whileLoop condition body, paired, _, _, _, _, twins, _ => by
      obtain ⟨opened, inOpened, new, reserved⟩ := twins.reserve 3
      have head := new 0 (by omega)
      have inside := new 1 (by omega)
      have after := new 2 (by omega)
      have atHead := (reserved.finish (.goto head)).switchTo head
      obtain ⟨last, inLast, looped⟩ := lower_pruned body
        ((atHead.finish (.branch inside after)).switchTo inside) (.some head after)
      exact ⟨last, fun _ _ isPair => inLast _ _ (inOpened _ _ isPair),
        (looped.finish (.goto (inLast _ _ head))).switchTo (inLast _ _ after)⟩
  | .doWhile body condition, paired, _, _, _, _, twins, _ => by
      obtain ⟨opened, inOpened, new, reserved⟩ := twins.reserve 3
      have inside := new 0 (by omega)
      have check := new 1 (by omega)
      have after := new 2 (by omega)
      obtain ⟨last, inLast, looped⟩ := lower_pruned body
        ((reserved.finish (.goto inside)).switchTo inside) (.some check after)
      have check := inLast _ _ check
      have after := inLast _ _ after
      have atCheck := (looped.finish (.goto check)).switchTo check
      exact ⟨last, fun _ _ isPair => inLast _ _ (inOpened _ _ isPair),
        (atCheck.finish (.branch (inLast _ _ inside) after)).switchTo after⟩
  | .forLoop init condition? updates body, paired, left, right, jumps?, jumpsToo?, twins, jumps => by
      obtain ⟨begun, inBegun, prepared⟩ := lowerAll_pruned init twins jumps
      obtain ⟨opened, inOpened, new, reserved⟩ := prepared.reserve 4
      have head := new 0 (by omega)
      have inside := new 1 (by omega)
      have step := new 2 (by omega)
      have after := new 3 (by omega)
      have atHead := (reserved.finish (.goto head)).switchTo head
      let terminator (inside after : BlockId) : Terminator Expr :=
        match condition? with
        | some condition => .branch condition inside after
        | none => .goto inside
      have enters {first firstToo second secondToo : BlockId} (inside : opened first firstToo)
          (after : opened second secondToo) :
          (terminator first second).Twins opened (terminator firstToo secondToo) := by
        cases condition? with
        | some condition => exact .branch inside after
        | none => exact .goto inside
      obtain ⟨last, inLast, looped⟩ := lower_pruned body
        ((atHead.finish (enters inside after)).switchTo inside) (.some step after)
      have step := inLast _ _ step
      have atStep := (looped.finish (.goto step)).switchTo step
      refine ⟨last, fun _ _ isPair => inLast _ _ (inOpened _ _ (inBegun _ _ isPair)), ?_⟩
      have closed := ((updates_twins updates atStep).finish (.goto (inLast _ _ head))).switchTo
        (inLast _ _ after)
      cases condition? <;> exact closed
  | .switch scrutinee arms, paired, left, right, jumps?, jumpsToo?, twins, jumps => by
      obtain ⟨opened, inOpened, new, reserved⟩ := twins.reserve (arms.length + 1)
      have after := new 0 (by omega)
      have blocks : ∀ way < arms.length, opened (left.next + 1 + way) (right.next + 1 + way) := by
        intro way isWay
        rw [Nat.add_assoc, Nat.add_assoc right.next, Nat.add_comm 1 way]
        exact new (way + 1) (by omega)
      have targets := targets_twins (arms.map Arm.pattern?)
        (fun way isWay => blocks way (by simpa using isWay)) after
      have leaves : Jumps.Twins opened
          (some ⟨match jumps? with | some jumps => jumps.continueTo | none => left.next, left.next⟩)
          (some ⟨match jumpsToo? with | some jumps => jumps.continueTo | none => right.next,
            right.next⟩) := by
        cases jumps with
        | none => exact .some after after
        | some continueTo _ => exact .some (inOpened _ _ continueTo) after
      obtain ⟨last, inLast, filled⟩ := lowerArms_pruned arms (reserved.finish (.switch targets))
        leaves blocks
      refine ⟨last, fun _ _ isPair => inLast _ _ (inOpened _ _ isPair), ?_⟩
      have closed := filled.switchTo (inLast _ _ after)
      simp only [Stmt.pruned, lower, patterns_prunedArms, length_prunedArms]
      cases jumps <;> exact closed
  | .breakOut, paired, _, _, _, _, twins, jumps =>
      ⟨paired, fun _ _ => id, (lower_jump rfl twins jumps).1⟩
  | .continueLoop, paired, _, _, _, _, twins, jumps =>
      ⟨paired, fun _ _ => id, (lower_jump rfl twins jumps).1⟩
  | .returnValue value? span, paired, _, _, _, _, twins, jumps =>
      ⟨paired, fun _ _ => id, (lower_jump rfl twins jumps).1⟩
  | .throwValue value?, paired, _, _, _, _, twins, jumps =>
      ⟨paired, fun _ _ => id, (lower_jump rfl twins jumps).1⟩

/-- Lowering statements and lowering them without the dead ones makes twins. -/
theorem lowerAll_pruned : ∀ (stmts : List (Stmt Leaf Expr)) {paired : Pairing}
    {left right : Draft Leaf Expr} {jumps? jumpsToo? : Option Jumps}, left.Twins paired right →
    Jumps.Twins paired jumps? jumpsToo? →
    TwinsOver paired (lowerAll jumps? (Stmt.prunedAll stmts) left) (lowerAll jumpsToo? stmts right)
  | [], paired, _, _, _, _, twins, _ => ⟨paired, fun _ _ => id, twins⟩
  | stmt :: rest, paired, left, right, jumps?, jumpsToo?, twins, jumps => by
      rw [Stmt.prunedAll, lowerAll, lowerAll]
      cases isJump : stmt.isJump with
      | true =>
          obtain ⟨jumped, stray⟩ := lower_jump isJump twins jumps
          rw [pruned_of_isJump isJump]
          exact ⟨paired, fun _ _ => id,
            jumped.dead stray (lowerAll_grows rest jumpsToo? jumped.rightOpen)⟩
      | false =>
          obtain ⟨half, inHalf, first⟩ := lower_pruned stmt twins jumps
          obtain ⟨last, inLast, others⟩ := lowerAll_pruned rest first (jumps.mono inHalf)
          exact ⟨last, fun _ _ isPair => inLast _ _ (inHalf _ _ isPair), others⟩

/-- Lowering arms and lowering them without dead statements makes twins. -/
theorem lowerArms_pruned : ∀ (arms : List (Arm (Stmt Leaf Expr))) {paired : Pairing}
    {left right : Draft Leaf Expr} {jumps jumpsToo : Jumps} {first twin : BlockId},
    left.Twins paired right → Jumps.Twins paired (some jumps) (some jumpsToo) →
    (∀ way < arms.length, paired (first + way) (twin + way)) →
    TwinsOver paired (lowerArms jumps first (Stmt.prunedArms arms) left)
      (lowerArms jumpsToo twin arms right)
  | [], paired, _, _, _, _, _, _, twins, _, _ => ⟨paired, fun _ _ => id, twins⟩
  | ⟨_, body⟩ :: rest, paired, left, right, jumps, jumpsToo, first, twin, twins, leaves, blocks => by
      have here := blocks 0 (by simp)
      obtain ⟨half, inHalf, filled⟩ := lowerAll_pruned body (twins.switchTo here) leaves
      have leaves := leaves.mono inHalf
      have later : ∀ way < rest.length, half (first + 1 + way) (twin + 1 + way) := by
        intro way isWay
        rw [Nat.add_assoc, Nat.add_assoc twin, Nat.add_comm 1 way]
        exact inHalf _ _ (blocks (way + 1) (by simpa using isWay))
      have ending : half jumps.breakTo jumpsToo.breakTo := by
        cases leaves with
        | some _ breakTo => exact breakTo
      obtain ⟨last, inLast, others⟩ := lowerArms_pruned rest (filled.finish (.goto ending)) leaves
        later
      exact ⟨last, fun _ _ isPair => inLast _ _ (inHalf _ _ isPair), others⟩

end

/-- The graph of pruned code is the graph of the code itself, but for stray blocks. -/
theorem FlowGraph.ofStmt_pruned (root : Stmt Leaf Expr) :
    ∃ paired, FlowGraph.Twins paired (ofStmt root.pruned) (ofStmt root) := by
  have started : (Draft.start : Draft Leaf Expr).Twins (fun id twin => id = 0 ∧ twin = 0) .start := by
    refine ⟨?_, ?_, Nat.zero_lt_one, Nat.zero_lt_one, Or.inl ⟨rfl, rfl⟩⟩
    · rintro _ _ _ _ ⟨rfl, rfl⟩ ⟨rfl, rfl⟩
      exact Iff.rfl
    · rintro _ _ ⟨rfl, rfl⟩
      exact ⟨_, _, rfl, rfl, rfl, .exit⟩
  obtain ⟨paired, kept, lowered⟩ := lower_pruned root started .none
  have finished := lowered.finish .exit
  exact ⟨paired, finished.ascending, kept _ _ ⟨rfl, rfl⟩, finished.blocks⟩

end Lowering
end NullFlow
