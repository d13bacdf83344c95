import NullFlow.FlowGraph.Lowering
import NullFlow.Proofs.Execution.Constructs
/-!
Drafts under construction. Code that goes to a draft changes the current block and new blocks
alone, and a finished graph shows it as soon as these blocks are settled.
-/

namespace NullFlow

variable {Leaf Expr State : Type}

namespace Draft

/-- The block of the number, as far as it is built. -/
def block? (draft : Draft Leaf Expr) (id : BlockId) : Option (Block Leaf Expr) :=
  draft.blocks[id]?

/-- The place to which new code goes. -/
def point (draft : Draft Leaf Expr) : Point :=
  ⟨draft.current, ((draft.block? draft.current).map fun block => block.steps.length).getD 0⟩

/-- The current block exists. -/
def IsOpen (draft : Draft Leaf Expr) : Prop := draft.current < draft.next

section Operations

variable (draft : Draft Leaf Expr)

@[simp] theorem next_reserve (count : Nat) : (draft.reserve count).next = draft.next + count := by
  simp [next, reserve]

@[simp] theorem next_finish (terminator : Terminator Expr) :
    (draft.finish terminator).next = draft.next := by
  simp [next, finish]

@[simp] theorem next_push (step : Step Leaf Expr) : (draft.push step).next = draft.next := by
  simp [next, push]

@[simp] theorem next_switchTo (block : BlockId) : (draft.switchTo block).next = draft.next := rfl

@[simp] theorem current_reserve (count : Nat) :
    (draft.reserve count).current = draft.current := rfl

@[simp] theorem current_finish (terminator : Terminator Expr) :
    (draft.finish terminator).current = draft.current := rfl

@[simp] theorem current_push (step : Step Leaf Expr) :
    (draft.push step).current = draft.current := rfl

@[simp] theorem current_switchTo (block : BlockId) : (draft.switchTo block).current = block := rfl

@[simp] theorem block?_switchTo (block id : BlockId) :
    (draft.switchTo block).block? id = draft.block? id := rfl

/-- Blocks that were not reserved are not there. -/
theorem block?_eq_none {id : BlockId} (outside : draft.next ≤ id) : draft.block? id = none :=
  Array.getElem?_eq_none outside

/-- Blocks that were reserved are there. -/
theorem block?_isSome {id : BlockId} (inside : id < draft.next) :
    ∃ block, draft.block? id = some block := ⟨_, Array.getElem?_eq_getElem inside⟩

theorem lt_next {id : BlockId} {block : Block Leaf Expr} (found : draft.block? id = some block) :
    id < draft.next := by
  refine Nat.lt_of_not_le fun outside => ?_
  rw [block?_eq_none draft outside] at found
  cases found

/-- A change of the current block leaves the other blocks as they are. -/
theorem getElem?_modify_current (change : Block Leaf Expr → Block Leaf Expr) (id : BlockId) :
    (draft.blocks.modify draft.current change)[id]? =
      if id = draft.current then (draft.block? id).map change else draft.block? id := by
  rw [Array.getElem?_modify]
  split
  · rename_i same
    simp [same, block?]
  · rename_i other
    rw [if_neg (Ne.symm other)]
    rfl

/-- Ending a block changes its terminator alone. -/
theorem block?_finish (terminator : Terminator Expr) (id : BlockId) :
    (draft.finish terminator).block? id =
      if id = draft.current then (draft.block? id).map fun block => { block with terminator }
      else draft.block? id :=
  draft.getElem?_modify_current _ id

/-- A step goes to the end of the current block. -/
theorem block?_push (step : Step Leaf Expr) (id : BlockId) :
    (draft.push step).block? id =
      if id = draft.current then
        (draft.block? id).map fun block => { block with steps := block.steps ++ [step] }
      else draft.block? id :=
  draft.getElem?_modify_current _ id

/-- Reserving leaves old blocks alone. -/
theorem block?_reserve_old (count : Nat) {id : BlockId} (old : id < draft.next) :
    (draft.reserve count).block? id = draft.block? id := by
  rw [block?, reserve, Array.getElem?_append_left old]
  rfl

/-- A block is empty when it is reserved. -/
theorem block?_reserve_new (count : Nat) {id : BlockId} (new : draft.next ≤ id)
    (inside : id < draft.next + count) :
    (draft.reserve count).block? id = some ⟨[], .exit⟩ := by
  rw [block?, reserve, Array.getElem?_append_right new, Array.getElem?_replicate]
  exact if_pos (Nat.sub_lt_left_of_lt_add new inside)

end Operations

/-- Code went to the current block and to new blocks. -/
structure Grows (before after : Draft Leaf Expr) : Prop where
  isOpen : after.IsOpen
  size_le : before.next ≤ after.next
  current : after.current = before.current ∨ before.next ≤ after.current
  frame : ∀ id, id < before.next → id ≠ before.current → after.block? id = before.block? id
  begun : ∀ block, before.block? before.current = some block →
    ∃ later, after.block? before.current = some later ∧ block.steps <+: later.steps

/-- A graph shows all code that went to a draft. Only the block that is current in the end may
still have got further code. -/
structure Completes (graph : FlowGraph Leaf Expr) (before after : Draft Leaf Expr) : Prop where
  settled : ∀ id, id = before.current ∨ before.next ≤ id → id < after.next →
    id ≠ after.current → graph.blocks[id]? = after.block? id
  begun : ∀ block, after.block? after.current = some block →
    ∃ final, graph.blocks[after.current]? = some final ∧ block.steps <+: final.steps

theorem Grows.refl {draft : Draft Leaf Expr} (isOpen : draft.IsOpen) : Grows draft draft where
  isOpen := isOpen
  size_le := Nat.le_refl _
  current := Or.inl rfl
  frame _ _ _ := rfl
  begun block found := ⟨block, found, List.prefix_refl _⟩

/-- A draft that grows twice grows. -/
theorem Grows.trans {first second third : Draft Leaf Expr} (early : Grows first second)
    (late : Grows second third) : Grows first third where
  isOpen := late.isOpen
  size_le := Nat.le_trans early.size_le late.size_le
  current := by
    have := early.current
    have := late.current
    have := early.size_le
    grind
  frame id inside other := by
    have := early.current
    have := early.size_le
    rw [late.frame id (by grind) (by grind), early.frame id inside other]
  begun block found := by
    obtain ⟨middle, atMiddle, first_le⟩ := early.begun block found
    rcases early.current with same | new
    · obtain ⟨final, atFinal, second_le⟩ := late.begun middle (same ▸ atMiddle)
      exact ⟨final, same ▸ atFinal, first_le.trans second_le⟩
    · have inside := lt_next first found
      have := early.size_le
      rw [← late.frame first.current (by grind) (by grind)] at atMiddle
      exact ⟨middle, atMiddle, first_le⟩

/-- What completes a later draft completes an earlier one that is settled by then. -/
theorem Completes.first {graph : FlowGraph Leaf Expr} {first second third : Draft Leaf Expr}
    (late : Grows second third) (completes : Completes graph first third)
    (current : second.current = first.current ∨ first.next ≤ second.current) :
    Completes graph first second where
  settled id affected inside other := by
    have := late.size_le
    have := late.current
    rw [← late.frame id inside other]
    exact completes.settled id affected (by grind) (by grind)
  begun block found := by
    obtain ⟨later, atLater, first_le⟩ := late.begun block found
    by_cases same : third.current = second.current
    · obtain ⟨final, atFinal, second_le⟩ := completes.begun later (same ▸ atLater)
      exact ⟨final, same ▸ atFinal, first_le.trans second_le⟩
    · have inside := lt_next third atLater
      refine ⟨later, ?_, first_le⟩
      rw [completes.settled second.current current inside (Ne.symm same), atLater]

/-- What completes an earlier draft completes a later one. -/
theorem Completes.second {graph : FlowGraph Leaf Expr} {first second third : Draft Leaf Expr}
    (early : Grows first second) (completes : Completes graph first third) :
    Completes graph second third where
  settled id affected inside other := by
    have := early.current
    have := early.size_le
    exact completes.settled id (by grind) inside other
  begun := completes.begun

/-- The place for new code, if the steps of the current block are known. -/
theorem point_eq {draft : Draft Leaf Expr} {block : Block Leaf Expr}
    (found : draft.block? draft.current = some block) :
    draft.point = ⟨draft.current, block.steps.length⟩ := by
  simp [point, found]

/-- In an empty block the draft stands at its start. -/
theorem point_empty {draft : Draft Leaf Expr} {id : BlockId} {terminator : Terminator Expr}
    (found : draft.block? id = some ⟨[], terminator⟩) :
    (draft.switchTo id).point = .atStart id := by
  simp [point, found, Point.atStart]

end Draft
end NullFlow
