import NullFlow.Proofs.Execution.Drafts
/-!
The lowering places code that executes the statement. Every kind of statement fills some new blocks
with the code of its parts and goes on in another new block.
-/

namespace NullFlow

open Draft

variable {Leaf Expr State : Type} {machine : Machine Leaf Expr State}

/-- An operation on drafts adds code that executes something. -/
structure Places (machine : Machine Leaf Expr State) (jumps? : Option Jumps)
    (before after : Draft Leaf Expr) (execution : Nat → State → Completion State) : Prop where
  grows : Grows before after
  simulates : ∀ graph, Completes graph before after →
    Simulates graph machine jumps? before.point after.point execution

/-- A block and new blocks were filled with code that executes something and then leaves. -/
structure Fills (machine : Machine Leaf Expr State) (jumps? : Option Jumps)
    (before after : Draft Leaf Expr) (block : BlockId) (ending : Terminator Expr)
    (execution : Nat → State → Completion State) : Prop where
  size_le : before.next ≤ after.next
  frame : ∀ id, id < before.next → id ≠ block → after.block? id = before.block? id
  simulates : ∀ graph : FlowGraph Leaf Expr,
    (∀ id, id = block ∨ before.next ≤ id → id < after.next →
      graph.blocks[id]? = after.block? id) →
    ∃ last, Simulates graph machine jumps? (.atStart block) last execution ∧
      graph.LeavesBy last ending

/-- The arms of a switch fill consecutive blocks. -/
structure FillsArms (machine : Machine Leaf Expr State) (jumps : Jumps)
    (before after : Draft Leaf Expr) (first : BlockId) (arms : List (Arm (Stmt Leaf Expr))) :
    Prop where
  size_le : before.next ≤ after.next
  frame : ∀ id, id < before.next → id < first ∨ first + arms.length ≤ id →
    after.block? id = before.block? id
  simulates : ∀ graph : FlowGraph Leaf Expr,
    (∀ id, (first ≤ id ∧ id < first + arms.length) ∨ before.next ≤ id → id < after.next →
      graph.blocks[id]? = after.block? id) →
    SimulatesArms graph machine jumps first arms

section Operations

variable {jumps? : Option Jumps} {before middle after : Draft Leaf Expr}
variable {first second : Nat → State → Completion State}

/-- Statements in order are placed one behind the other. -/
theorem Places.seq (early : Places machine jumps? before middle first)
    (late : Places machine jumps? middle after second) :
    Places machine jumps? before after
      fun fuel state => (first fuel state).andThen (second fuel) where
  grows := early.grows.trans late.grows
  simulates graph completes :=
    (early.simulates graph (completes.first late.grows early.grows.current)).seq
      (late.simulates graph (completes.second early.grows))

theorem Places.none (isOpen : before.IsOpen) :
    Places machine jumps? before before fun _ state => .normal state where
  grows := .refl isOpen
  simulates _ _ := simulates_empty

theorem grows_push (isOpen : before.IsOpen) (step : Step Leaf Expr) :
    Grows before (before.push step) where
  isOpen := by simpa [Draft.IsOpen] using isOpen
  size_le := by simp
  current := Or.inl rfl
  frame id inside other := by rw [block?_push, if_neg other]
  begun block found := by
    refine ⟨{ block with steps := block.steps ++ [step] }, ?_, List.prefix_append _ _⟩
    simp [block?_push, found]

/-- The step that was added last is the step at the place where code went before. -/
theorem stepAt_push {graph : FlowGraph Leaf Expr} {step : Step Leaf Expr}
    (isOpen : before.IsOpen) (completes : Completes graph before (before.push step)) :
    graph.StepAt before.point step ∧ (before.push step).point = before.point.next := by
  obtain ⟨block, found⟩ := block?_isSome before isOpen
  have pushed : (before.push step).block? before.current =
      some { block with steps := block.steps ++ [step] } := by
    simp [block?_push, found]
  obtain ⟨final, atFinal, shown⟩ := completes.begun _ pushed
  have point : (before.push step).point = ⟨before.current, (block.steps ++ [step]).length⟩ :=
    point_eq pushed
  rw [point_eq found, point]
  refine ⟨⟨final, atFinal, ?_⟩, by simp [Point.next]⟩
  rw [List.prefix_iff_getElem?] at shown
  simpa using shown block.steps.length (by simp)

/-- A leaf is placed as a step. -/
theorem places_simple (isOpen : before.IsOpen) (leaf : Leaf) :
    Places machine jumps? before (before.push (.simple leaf))
      fun fuel => machine.execute fuel (.simple leaf) where
  grows := grows_push isOpen _
  simulates graph completes := by
    obtain ⟨here, next⟩ := stepAt_push isOpen completes
    rw [next]
    exact simulates_simple here

/-- The code that goes to a draft after it switched to an empty block. -/
theorem Places.fill (block : BlockId) (ending : Terminator Expr) {terminator : Terminator Expr}
    (isEmpty : before.block? block = some ⟨[], terminator⟩)
    (code : Places machine jumps? (before.switchTo block) middle first) :
    Fills machine jumps? before (middle.finish ending) block ending first where
  size_le := by simpa using code.grows.size_le
  frame id inside other := by
    have frame := code.grows.frame id inside other
    have current := code.grows.current
    rw [block?_finish, if_neg (by simp at current; grind), frame, block?_switchTo]
  simulates graph agrees := by
    have current := code.grows.current
    obtain ⟨last, atLast⟩ := block?_isSome middle code.grows.isOpen
    have isOpen : middle.current < middle.next := code.grows.isOpen
    have shown : graph.blocks[middle.current]? = some { last with terminator := ending } := by
      rw [agrees middle.current (by simpa using current) (by simpa using isOpen)]
      simp [block?_finish, atLast]
    refine ⟨middle.point, ?_, ⟨_, shown, by simp [point_eq atLast], rfl⟩⟩
    rw [← point_empty isEmpty]
    refine code.simulates graph ⟨fun id affected inside other => ?_, fun block found => ?_⟩
    · rw [agrees id (by simpa using affected) (by simpa using inside), block?_finish, if_neg other]
    · obtain rfl : last = block := by simpa [atLast] using found
      exact ⟨_, shown, List.prefix_refl _⟩

/-- A jump ends the code. What comes behind it goes to a new block. -/
theorem grows_jump (isOpen : before.IsOpen) (terminator : Terminator Expr) :
    Grows before (before.jump terminator) where
  isOpen := by simp [Draft.IsOpen, jump]
  size_le := by simp [jump]
  current := Or.inr (by simp [jump])
  frame id inside other := by
    rw [jump, block?_switchTo, block?_reserve_old _ _ (by simpa using inside), block?_finish,
      if_neg other]
  begun block found := by
    refine ⟨{ block with terminator }, ?_, List.prefix_refl _⟩
    rw [jump, block?_switchTo, block?_reserve_old _ _ (by rw [next_finish]; exact isOpen)]
    simp [block?_finish, found]

/-- A jump leaves the block where the draft stood. -/
theorem leavesBy_jump {graph : FlowGraph Leaf Expr} {terminator : Terminator Expr}
    (isOpen : before.IsOpen) (completes : Completes graph before (before.jump terminator)) :
    graph.LeavesBy before.point terminator := by
  obtain ⟨block, found⟩ := block?_isSome before isOpen
  have inside : before.current < before.next := isOpen
  refine ⟨{ block with terminator }, ?_, by rw [point_eq found], rfl⟩
  have settled := completes.settled before.current (Or.inl rfl)
    (by simp [jump]; grind) (by simp [jump]; grind)
  rw [point_eq found, settled, jump, block?_switchTo,
    block?_reserve_old _ _ (by rw [next_finish]; exact isOpen)]
  simp [block?_finish, found]

/-- The blocks that a statement with inner control flow starts from: the current block has ended,
and new empty blocks follow. -/
def opened (draft : Draft Leaf Expr) (count : Nat) (terminator : Terminator Expr) :
    Draft Leaf Expr :=
  (draft.reserve count).finish terminator

theorem opened_next (draft : Draft Leaf Expr) (count : Nat) (terminator : Terminator Expr) :
    (opened draft count terminator).next = draft.next + count := by simp [opened]

/-- Blocks other than the current one are as they were. -/
theorem opened_old (count : Nat) (terminator : Terminator Expr) {id : BlockId}
    (old : id < before.next) (other : id ≠ before.current) :
    (opened before count terminator).block? id = before.block? id := by
  rw [opened, block?_finish, if_neg (by simpa using other), block?_reserve_old _ _ old]

/-- The current block gets its terminator. -/
theorem opened_current (count : Nat) (terminator : Terminator Expr) {block : Block Leaf Expr}
    (found : before.block? before.current = some block) :
    (opened before count terminator).block? before.current = some { block with terminator } := by
  rw [opened, block?_finish, block?_reserve_old _ _ (lt_next before found)]
  simp [found]

/-- New blocks are empty. -/
theorem opened_new {count : Nat} {terminator : Terminator Expr} {id : BlockId}
    (isOpen : before.IsOpen) (new : before.next ≤ id) (inside : id < before.next + count) :
    (opened before count terminator).block? id = some ⟨[], .exit⟩ := by
  have current : before.current < before.next := isOpen
  rw [opened, block?_finish, if_neg (by simp; grind), block?_reserve_new _ _ new inside]

/-- New empty blocks stand ready for the parts of a statement. -/
structure Opens (before base : Draft Leaf Expr) (count : Nat) : Prop where
  size : base.next = before.next + count
  isEmpty : ∀ id, before.next ≤ id → id < before.next + count →
    base.block? id = some ⟨[], .exit⟩

theorem opened_opens (isOpen : before.IsOpen) (count : Nat) (terminator : Terminator Expr) :
    Opens before (opened before count terminator) count where
  size := opened_next ..
  isEmpty _ new inside := opened_new isOpen new inside

/-- An empty block was ended. -/
structure Ends (before after : Draft Leaf Expr) (block : BlockId) (terminator : Terminator Expr) :
    Prop where
  size : after.next = before.next
  ended : after.block? block = some ⟨[], terminator⟩
  frame : ∀ id, id ≠ block → after.block? id = before.block? id

/-- A block that is filled and finished ends as told. -/
theorem finish_ends {block : BlockId} {old : Terminator Expr}
    (isEmpty : before.block? block = some ⟨[], old⟩) (terminator : Terminator Expr) :
    Ends before ((before.switchTo block).finish terminator) block terminator where
  size := by simp
  ended := by simp [block?_finish, isEmpty]
  frame id other := by rw [block?_finish, if_neg (by simpa using other), block?_switchTo]

/-- A statement ends the current block, fills new blocks and goes on in one that is still empty. -/
theorem places_closed (count : Nat) (terminator : Terminator Expr) {closed : Draft Leaf Expr}
    {after : BlockId} {execution : Nat → State → Completion State} (isOpen : before.IsOpen)
    (size_le : before.next + count ≤ closed.next)
    (frame : ∀ id, id < before.next →
      closed.block? id = (opened before count terminator).block? id)
    (new : before.next ≤ after) (inside : after < before.next + count)
    (isEmpty : closed.block? after = some ⟨[], .exit⟩)
    (code : ∀ graph : FlowGraph Leaf Expr, graph.LeavesBy before.point terminator →
      (∀ id, before.next ≤ id → id < closed.next → id ≠ after →
        graph.blocks[id]? = closed.block? id) →
      Simulates graph machine jumps? before.point (.atStart after) execution) :
    Places machine jumps? before (closed.switchTo after) execution := by
  have current : before.current < before.next := isOpen
  obtain ⟨block, found⟩ := block?_isSome before isOpen
  have ended := opened_current count terminator found
  refine ⟨⟨?_, ?_, ?_, ?_, ?_⟩, fun graph completes => ?_⟩
  · simp [Draft.IsOpen]
    grind
  · simp
    grind
  · exact Or.inr new
  · intro id old other
    rw [block?_switchTo, frame id old, opened_old count terminator old other]
  · intro first atFirst
    obtain rfl : block = first := by simpa [found] using atFirst
    exact ⟨{ block with terminator }, by rw [block?_switchTo, frame _ current, ended],
      List.prefix_refl _⟩
  · rw [point_empty isEmpty]
    refine code graph ⟨{ block with terminator }, ?_, by rw [point_eq found], rfl⟩ ?_
    · rw [point_eq found, completes.settled before.current (Or.inl rfl) (by simp; grind)
        (by simp; grind), block?_switchTo, frame _ current, ended]
    · intro id affected within other
      exact completes.settled id (Or.inr affected) within other

end Operations

/-- The updates of a loop are added to the current block. -/
theorem updates_pushed (updates : List Expr) (start : Draft Leaf Expr) :
    let stepped := updates.foldl (fun draft expr => draft.push (.update expr)) start
    stepped.next = start.next ∧ stepped.current = start.current ∧
    ∀ id, stepped.block? id =
      if id = start.current then (start.block? id).map fun block =>
        { block with steps := block.steps ++ updates.map .update }
      else start.block? id := by
  induction updates generalizing start with
  | nil => simp
  | cons expr rest ih =>
      obtain ⟨size, current, found⟩ := ih (start.push (.update expr))
      refine ⟨by simpa using size, by simpa using current, fun id => ?_⟩
      rw [List.foldl_cons, found, block?_push, current_push]
      by_cases same : id = start.current
      · simp [same, Function.comp_def]
      · simp only [if_neg same]

/-- The arms of a switch are lowered one after the other. -/
theorem fillsArms_cons {jumps : Jumps} {first : BlockId} {pattern? : Option Pattern}
    {body : List (Stmt Leaf Expr)} {rest : List (Arm (Stmt Leaf Expr))}
    {before half after : Draft Leaf Expr}
    (inside : first + (rest.length + 1) ≤ before.next)
    (fill : Fills machine (some jumps) before half first (.goto jumps.breakTo)
      fun fuel => machine.executeAll fuel body)
    (fills : FillsArms machine jumps half after (first + 1) rest) :
    FillsArms machine jumps before after first (⟨pattern?, body⟩ :: rest) := by
  have larger := fill.size_le
  refine ⟨Nat.le_trans larger fills.size_le, fun id old outside => ?_, fun graph shown => ?_⟩
  · simp only [List.length_cons] at outside
    rw [fills.frame id (by grind) (by grind), fill.frame id old (by grind)]
  · simp only [List.length_cons] at shown
    intro way arm found
    cases way with
    | zero =>
        obtain rfl : ⟨pattern?, body⟩ = arm := by simpa using found
        have largest := fills.size_le
        exact fill.simulates graph fun id affected within => by
          rw [shown id (by grind) (by grind), fills.frame id within (by grind)]
    | succ way =>
        have simulates := fills.simulates graph (fun id affected within =>
          shown id (by grind) within) way arm (by simpa using found)
        rw [Nat.add_assoc, Nat.add_comm 1 way] at simulates
        exact simulates

section Compounds

variable {jumps? : Option Jumps} {draft : Draft Leaf Expr} (isOpen : draft.IsOpen)

/-- The lowering of a statement places its code in any draft. -/
def LowersTo (machine : Machine Leaf Expr State) (jumps? : Option Jumps)
    (lowering : Draft Leaf Expr → Draft Leaf Expr) (execution : Nat → State → Completion State) :
    Prop :=
  ∀ draft : Draft Leaf Expr, draft.IsOpen → Places machine jumps? draft (lowering draft) execution

include isOpen

/-- An if without an else is placed. -/
theorem places_if {condition : Expr} {thenBranch : Stmt Leaf Expr}
    (taken : LowersTo machine jumps? (lower jumps? thenBranch)
      fun fuel => machine.execute fuel thenBranch) :
    Places machine jumps? draft (lower jumps? (.ifElse condition thenBranch none) draft)
      fun fuel => machine.execute fuel (.ifElse condition thenBranch none) := by
  let base := opened draft 2 (.branch condition draft.next (draft.next + 1))
  let closed := (lower jumps? thenBranch (base.switchTo draft.next)).finish
    (.goto (draft.next + 1))
  have opens : Opens draft base 2 := opened_opens isOpen ..
  have size := opens.size
  have fill : Fills machine jumps? base closed _ _ _ :=
    Places.fill draft.next (.goto (draft.next + 1)) (opens.isEmpty _ (by grind) (by grind))
      (taken (base.switchTo draft.next) (by simp [Draft.IsOpen, size]))
  change Places machine jumps? draft (closed.switchTo (draft.next + 1)) _
  clear_value closed
  have larger := fill.size_le
  refine places_closed 2 (.branch condition draft.next (draft.next + 1)) isOpen (by grind)
    (fun id old => fill.frame id (by grind) (by grind)) (by grind) (by grind) ?_
    fun graph leaves shown => ?_
  · rw [fill.frame _ (by grind) (by grind)]
    exact opens.isEmpty _ (by grind) (by grind)
  · obtain ⟨last, code, jumps⟩ := fill.simulates graph fun id affected within =>
      shown id (by grind) within (by grind)
    exact simulates_if leaves code jumps

/-- An if is placed. -/
theorem places_ifElse {condition : Expr} {thenBranch elseBranch : Stmt Leaf Expr}
    (taken : LowersTo machine jumps? (lower jumps? thenBranch)
      fun fuel => machine.execute fuel thenBranch)
    (otherwise : LowersTo machine jumps? (lower jumps? elseBranch)
      fun fuel => machine.execute fuel elseBranch) :
    Places machine jumps? draft
      (lower jumps? (.ifElse condition thenBranch (some elseBranch)) draft)
      fun fuel => machine.execute fuel (.ifElse condition thenBranch (some elseBranch)) := by
  let base := opened draft 3 (.branch condition draft.next (draft.next + 1))
  let half := (lower jumps? thenBranch (base.switchTo draft.next)).finish (.goto (draft.next + 2))
  let closed := (lower jumps? elseBranch (half.switchTo (draft.next + 1))).finish
    (.goto (draft.next + 2))
  have opens : Opens draft base 3 := opened_opens isOpen ..
  have size := opens.size
  have first : Fills machine jumps? base half _ _ _ :=
    Places.fill draft.next (.goto (draft.next + 2)) (opens.isEmpty _ (by grind) (by grind))
      (taken (base.switchTo draft.next) (by simp [Draft.IsOpen, size]))
  have larger := first.size_le
  have second : Fills machine jumps? half closed _ _ _ :=
    Places.fill (draft.next + 1) (.goto (draft.next + 2))
      ((first.frame _ (by grind) (by grind)).trans (opens.isEmpty _ (by grind) (by grind)))
      (otherwise (half.switchTo (draft.next + 1)) (by simp [Draft.IsOpen]; grind))
  change Places machine jumps? draft (closed.switchTo (draft.next + 2)) _
  clear_value closed half
  have largest := second.size_le
  have frame : ∀ id, id < draft.next + 3 → id ≠ draft.next → id ≠ draft.next + 1 →
      closed.block? id = base.block? id := fun id inside notFirst notSecond => by
    rw [second.frame id (by grind) notSecond, first.frame id (by grind) notFirst]
  refine places_closed 3 (.branch condition draft.next (draft.next + 1)) isOpen (by grind)
    (fun id old => frame id (by grind) (by grind) (by grind)) (by grind) (by grind) ?_
    fun graph leaves shown => ?_
  · rw [frame _ (by grind) (by grind) (by grind)]
    exact opens.isEmpty _ (by grind) (by grind)
  · obtain ⟨lastTrue, codeTrue, jumpsTrue⟩ := first.simulates graph fun id affected within => by
      rw [shown id (by grind) (by grind) (by grind), second.frame id within (by grind)]
    obtain ⟨lastFalse, codeFalse, jumpsFalse⟩ := second.simulates graph fun id affected within =>
      shown id (by grind) within (by grind)
    exact simulates_ifElse leaves codeTrue jumpsTrue codeFalse jumpsFalse

/-- A while loop is placed, with the blocks that its jumps go to. -/
theorem places_while {condition : Expr} {body : Stmt Leaf Expr}
    (code : ∀ jumps, LowersTo machine (some jumps) (lower (some jumps) body)
      fun fuel => machine.execute fuel body) :
    Places machine jumps? draft (lower jumps? (.whileLoop condition body) draft)
      fun fuel => machine.execute fuel (.whileLoop condition body) := by
  let jumps : Jumps := ⟨draft.next, draft.next + 2⟩
  let base := opened draft 3 (.goto draft.next)
  let decided := (base.switchTo draft.next).finish
    (.branch condition (draft.next + 1) (draft.next + 2))
  let closed := (lower (some jumps) body (decided.switchTo (draft.next + 1))).finish
    (.goto draft.next)
  have opens : Opens draft base 3 := opened_opens isOpen ..
  have size := opens.size
  have ends : Ends base decided _ _ := finish_ends (opens.isEmpty _ (by grind) (by grind)) _
  have sameSize := ends.size
  have fill : Fills machine (some jumps) decided closed _ _ _ :=
    Places.fill (draft.next + 1) (.goto draft.next)
      ((ends.frame _ (by grind)).trans (opens.isEmpty _ (by grind) (by grind)))
      (code jumps (decided.switchTo (draft.next + 1)) (by simp [Draft.IsOpen]; grind))
  change Places machine jumps? draft (closed.switchTo (draft.next + 2)) _
  clear_value closed decided
  have larger := fill.size_le
  refine places_closed 3 (.goto draft.next) isOpen (by grind) (fun id old => ?_) (by grind)
    (by grind) ?_ fun graph leaves shown => ?_
  · rw [fill.frame id (by grind) (by grind), ends.frame id (by grind)]
  · rw [fill.frame _ (by grind) (by grind), ends.frame _ (by grind)]
    exact opens.isEmpty _ (by grind) (by grind)
  · obtain ⟨last, simulates, repeats⟩ := fill.simulates graph fun id affected within =>
      shown id (by grind) within (by grind)
    have atHead := (shown draft.next (by grind) (by grind) (by grind)).trans
      ((fill.frame _ (by grind) (by grind)).trans ends.ended)
    exact simulates_while leaves ⟨_, atHead, rfl, rfl⟩ simulates repeats

/-- A loop with its test at the end is placed, with the blocks that its jumps go to. -/
theorem places_doWhile {condition : Expr} {body : Stmt Leaf Expr}
    (code : ∀ jumps, LowersTo machine (some jumps) (lower (some jumps) body)
      fun fuel => machine.execute fuel body) :
    Places machine jumps? draft (lower jumps? (.doWhile body condition) draft)
      fun fuel => machine.execute fuel (.doWhile body condition) := by
  let jumps : Jumps := ⟨draft.next + 1, draft.next + 2⟩
  let base := opened draft 3 (.goto draft.next)
  let filled := (lower (some jumps) body (base.switchTo draft.next)).finish
    (.goto (draft.next + 1))
  let closed := (filled.switchTo (draft.next + 1)).finish
    (.branch condition draft.next (draft.next + 2))
  have opens : Opens draft base 3 := opened_opens isOpen ..
  have size := opens.size
  have fill : Fills machine (some jumps) base filled _ _ _ :=
    Places.fill draft.next (.goto (draft.next + 1)) (opens.isEmpty _ (by grind) (by grind))
      (code jumps (base.switchTo draft.next) (by simp [Draft.IsOpen, size]))
  have larger := fill.size_le
  have checkEmpty : filled.block? (draft.next + 1) = some ⟨[], .exit⟩ := by
    rw [fill.frame _ (by grind) (by grind)]
    exact opens.isEmpty _ (by grind) (by grind)
  have ends : Ends filled closed _ _ := finish_ends checkEmpty _
  change Places machine jumps? draft (closed.switchTo (draft.next + 2)) _
  clear_value closed filled
  have sameSize := ends.size
  refine places_closed 3 (.goto draft.next) isOpen (by grind) (fun id old => ?_) (by grind)
    (by grind) ?_ fun graph leaves shown => ?_
  · rw [ends.frame id (by grind), fill.frame id (by grind) (by grind)]
  · rw [ends.frame _ (by grind), fill.frame _ (by grind) (by grind)]
    exact opens.isEmpty _ (by grind) (by grind)
  · obtain ⟨last, simulates, checks⟩ := fill.simulates graph fun id affected within => by
      rw [shown id (by grind) (by grind) (by grind), ends.frame id (by grind)]
    have atCheck := (shown (draft.next + 1) (by grind) (by grind) (by grind)).trans ends.ended
    exact simulates_doWhile leaves simulates checks ⟨_, atCheck, rfl, rfl⟩

/-- The loop of a `for` without the statements that come before it. -/
theorem places_forLoop (condition? : Option Expr) (updates : List Expr) {body : Stmt Leaf Expr}
    (code : ∀ jumps, LowersTo machine (some jumps) (lower (some jumps) body)
      fun fuel => machine.execute fuel body) :
    Places machine jumps? draft (lower jumps? (.forLoop [] condition? updates body) draft)
      fun fuel state => rounds (machine.roundFromHead condition? (machine.execute fuel body)
        (machine.endRound updates)) fuel state := by
  let jumps : Jumps := ⟨draft.next + 2, draft.next + 3⟩
  let base := opened draft 4 (.goto draft.next)
  let atHead : Terminator Expr := condition?.elim (.goto (draft.next + 1)) fun condition =>
    .branch condition (draft.next + 1) (draft.next + 3)
  let decided := (base.switchTo draft.next).finish atHead
  let filled := (lower (some jumps) body (decided.switchTo (draft.next + 1))).finish
    (.goto (draft.next + 2))
  let closed := (updates.foldl (fun draft expr => draft.push (.update expr))
    (filled.switchTo (draft.next + 2))).finish (.goto draft.next)
  have opens : Opens draft base 4 := opened_opens isOpen ..
  have size := opens.size
  have ends : Ends base decided _ _ := finish_ends (opens.isEmpty _ (by grind) (by grind)) _
  have sameSize := ends.size
  have fill : Fills machine (some jumps) decided filled _ _ _ :=
    Places.fill (draft.next + 1) (.goto (draft.next + 2))
      ((ends.frame _ (by grind)).trans (opens.isEmpty _ (by grind) (by grind)))
      (code jumps (decided.switchTo (draft.next + 1)) (by simp [Draft.IsOpen]; grind))
  have larger := fill.size_le
  have stepEmpty : filled.block? (draft.next + 2) = some ⟨[], .exit⟩ := by
    rw [fill.frame _ (by grind) (by grind), ends.frame _ (by grind)]
    exact opens.isEmpty _ (by grind) (by grind)
  have stepped : closed.next = filled.next ∧
      closed.block? (draft.next + 2) = some ⟨updates.map .update, .goto draft.next⟩ ∧
      ∀ id, id ≠ draft.next + 2 → closed.block? id = filled.block? id := by
    obtain ⟨steppedSize, current, found⟩ :=
      updates_pushed updates (filled.switchTo (draft.next + 2))
    refine ⟨?_, ?_, fun id other => ?_⟩
    · rw [next_finish, steppedSize, next_switchTo]
    · rw [block?_finish, current, found]
      simp [stepEmpty]
    · rw [block?_finish, current, found]
      simp [other]
  have same : lower jumps? (.forLoop [] condition? updates body) draft =
      closed.switchTo (draft.next + 3) := by
    cases condition? <;> simp only [lower, lowerAll] <;> rfl
  rw [same]
  clear_value closed filled decided
  obtain ⟨finalSize, atStep, frame⟩ := stepped
  have kept : ∀ id, id < draft.next + 4 → id ≠ draft.next → id ≠ draft.next + 1 →
      id ≠ draft.next + 2 → closed.block? id = base.block? id := fun id inside _ _ other => by
    rw [frame id other, fill.frame id (by grind) (by grind), ends.frame id (by grind)]
  refine places_closed 4 (.goto draft.next) isOpen (by grind)
    (fun id old => kept id (by grind) (by grind) (by grind) (by grind)) (by grind) (by grind) ?_
    fun graph leaves shown => ?_
  · rw [kept _ (by grind) (by grind) (by grind) (by grind)]
    exact opens.isEmpty _ (by grind) (by grind)
  · obtain ⟨last, simulates, goesOn⟩ := fill.simulates graph fun id affected within => by
      rw [shown id (by grind) (by grind) (by grind), frame id (by grind)]
    have headShown := (shown draft.next (by grind) (by grind) (by grind)).trans
      ((frame _ (by grind)).trans ((fill.frame _ (by grind) (by grind)).trans ends.ended))
    have stepShown := (shown (draft.next + 2) (by grind) (by grind) (by grind)).trans atStep
    exact simulates_headed condition? leaves ⟨_, headShown, rfl, rfl⟩ simulates goesOn
      fun least => followsRound_updates stepShown

/-- A switch is placed, with a block for every arm. -/
theorem places_switch {scrutinee : Expr} {arms : List (Arm (Stmt Leaf Expr))}
    (code : ∀ (jumps : Jumps) (first : BlockId) (draft : Draft Leaf Expr),
      (∀ way, way < arms.length → draft.block? (first + way) = some ⟨[], .exit⟩) →
      FillsArms machine jumps draft (lowerArms jumps first arms draft) first arms) :
    Places machine jumps? draft (lower jumps? (.switch scrutinee arms) draft)
      fun fuel => machine.execute fuel (.switch scrutinee arms) := by
  let patterns := arms.map Arm.pattern?
  let continueTo := jumps?.elim draft.next Jumps.continueTo
  let ends : Terminator Expr :=
    .switch scrutinee (switchTargets (draft.next + 1) draft.next patterns)
  let base := opened draft (arms.length + 1) ends
  let closed := lowerArms ⟨continueTo, draft.next⟩ (draft.next + 1) arms base
  have opens : Opens draft base (arms.length + 1) := opened_opens isOpen ..
  have size := opens.size
  have fills : FillsArms machine ⟨continueTo, draft.next⟩ base closed (draft.next + 1) arms :=
    code _ _ base fun way isArm => opens.isEmpty _ (by grind) (by grind)
  have same : lower jumps? (.switch scrutinee arms) draft = closed.switchTo draft.next := by
    unfold lower
    cases jumps? <;> rfl
  rw [same]
  clear_value closed
  have larger := fills.size_le
  refine places_closed (arms.length + 1) ends isOpen (by grind)
    (fun id old => fills.frame id (by grind) (by grind)) (by grind) (by grind) ?_
    fun graph leaves shown => ?_
  · rw [fills.frame _ (by grind) (by grind)]
    exact opens.isEmpty _ (by grind) (by grind)
  · refine simulates_switch ⟨continueTo, draft.next⟩ leaves (fun outer equal => ?_)
      (fills.simulates graph fun id affected within => shown id (by grind) within (by grind))
    simp [continueTo, equal]

end Compounds

section Trees

variable (machine)

mutual

/-- The lowering of a statement places code that executes it. -/
theorem lower_places : ∀ (stmt : Stmt Leaf Expr) (jumps? : Option Jumps),
    LowersTo machine jumps? (lower jumps? stmt) fun fuel => machine.execute fuel stmt
  | .simple leaf, _ => fun draft isOpen => by
      rw [lower]
      exact places_simple isOpen leaf
  | .empty, _ => fun draft isOpen => by
      simp only [lower, Machine.execute]
      exact .none isOpen
  | .block stmts, jumps? => by
      simp only [lower, Machine.execute]
      exact lowerAll_places stmts jumps?
  | .ifElse _ thenBranch none, jumps? => fun _ isOpen =>
      places_if isOpen (lower_places thenBranch jumps?)
  | .ifElse _ thenBranch (some elseBranch), jumps? => fun _ isOpen =>
      places_ifElse isOpen (lower_places thenBranch jumps?) (lower_places elseBranch jumps?)
  | .whileLoop _ body, _ => fun _ isOpen =>
      places_while isOpen fun jumps => lower_places body (some jumps)
  | .doWhile body _, _ => fun _ isOpen =>
      places_doWhile isOpen fun jumps => lower_places body (some jumps)
  | .forLoop init condition? updates body, jumps? => fun draft isOpen => by
      have prepared := lowerAll_places init jumps? draft isOpen
      have looped : Places machine jumps? _ _ _ := places_forLoop prepared.grows.isOpen condition?
        updates fun jumps => lower_places body (some jumps)
      simp only [Machine.execute]
      have same : lower jumps? (.forLoop init condition? updates body) draft =
          lower jumps? (.forLoop [] condition? updates body) (lowerAll jumps? init draft) := by
        cases condition? <;> simp only [lower, lowerAll]
      rw [same]
      exact prepared.seq looped
  | .switch _ arms, _ => fun _ isOpen =>
      places_switch isOpen fun jumps => lowerArms_fills arms jumps
  | .breakOut, jumps? => fun draft isOpen => by
      cases jumps? with
      | none =>
          exact ⟨grows_jump isOpen _, fun graph completes => simulates_break nofun⟩
      | some jumps =>
          refine ⟨grows_jump isOpen _, fun graph completes => simulates_break ?_⟩
          rintro _ ⟨⟩
          exact leavesBy_jump isOpen completes
  | .continueLoop, jumps? => fun draft isOpen => by
      cases jumps? with
      | none =>
          exact ⟨grows_jump isOpen _, fun graph completes => simulates_continue nofun⟩
      | some jumps =>
          refine ⟨grows_jump isOpen _, fun graph completes => simulates_continue ?_⟩
          rintro _ ⟨⟩
          exact leavesBy_jump isOpen completes
  | .returnValue value? span, _ => fun draft isOpen =>
      ⟨grows_jump isOpen _, fun graph completes =>
        simulates_return (leavesBy_jump isOpen completes)⟩
  | .throwValue value?, _ => fun draft isOpen =>
      ⟨grows_jump isOpen _, fun graph completes =>
        simulates_throw (leavesBy_jump isOpen completes)⟩
termination_by structural stmt => stmt

/-- Lowered statements are placed. -/
theorem lowerAll_places : ∀ (stmts : List (Stmt Leaf Expr)) (jumps? : Option Jumps),
    LowersTo machine jumps? (lowerAll jumps? stmts) fun fuel => machine.executeAll fuel stmts
  | [], _ => fun draft isOpen => by
      simp only [lowerAll, Machine.executeAll]
      exact .none isOpen
  | stmt :: rest, jumps? => fun draft isOpen => by
      have first := lower_places stmt jumps? draft isOpen
      have others := lowerAll_places rest jumps? _ first.grows.isOpen
      simp only [lowerAll, Machine.executeAll]
      exact first.seq others
termination_by structural stmts => stmts

/-- Lowered arms fill their blocks. -/
theorem lowerArms_fills : ∀ (arms : List (Arm (Stmt Leaf Expr))) (jumps : Jumps)
    (first : BlockId) (draft : Draft Leaf Expr),
    (∀ way, way < arms.length → draft.block? (first + way) = some ⟨[], .exit⟩) →
    FillsArms machine jumps draft (lowerArms jumps first arms draft) first arms
  | [], _, _, _, _ => ⟨Nat.le_refl _, fun _ _ _ => rfl, fun _ _ _ _ found => by simp at found⟩
  | ⟨_, body⟩ :: rest, jumps, first, draft, empties => by
      simp only [List.length_cons] at empties
      have inside : ∀ way, way < rest.length + 1 → first + way < draft.next :=
        fun way isArm => lt_next draft (empties way isArm)
      have firstEmpty := empties 0 (by grind)
      have code := lowerAll_places body (some jumps) (draft.switchTo first)
        (by simpa [Draft.IsOpen] using inside 0 (by grind))
      have fill := Places.fill first (.goto jumps.breakTo) firstEmpty code
      rw [lowerArms]
      refine fillsArms_cons (by have := inside rest.length (by grind); grind) fill
        (lowerArms_fills rest jumps (first + 1) _ fun way isArm => ?_)
      rw [Nat.add_assoc, Nat.add_comm 1 way,
        fill.frame _ (inside (way + 1) (by grind)) (by grind)]
      exact empties (way + 1) (by grind)
termination_by structural arms => arms

end

end Trees

section Layout

/-- A machine that does nothing. -/
def Machine.idle : Machine Leaf Expr Unit where
  simple _ state := .ok state
  update _ state := .ok state
  decide _ state := .ok (false, state)
  choose _ _ state := .ok (0, state)
  answer _ state := .ok state
  raise _ state := .ok state

/-- Lowering grows the draft. -/
theorem lowerAll_grows (stmts : List (Stmt Leaf Expr)) (jumps? : Option Jumps)
    {draft : Draft Leaf Expr} (isOpen : draft.IsOpen) :
    Grows draft (lowerAll jumps? stmts draft) :=
  (lowerAll_places Machine.idle stmts jumps? draft isOpen).grows

/-- A lowered statement fills its block. -/
theorem lower_fills (stmt : Stmt Leaf Expr) (jumps? : Option Jumps) {draft : Draft Leaf Expr}
    {block : BlockId} (ending : Terminator Expr)
    (isEmpty : draft.block? block = some ⟨[], .exit⟩) :
    Fills Machine.idle jumps? draft ((lower jumps? stmt (draft.switchTo block)).finish ending) block
      ending fun fuel => Machine.idle.execute fuel stmt :=
  Places.fill block ending isEmpty
    (lower_places Machine.idle stmt jumps? (draft.switchTo block) (draft.lt_next isEmpty))

/-- Lowered statements fill their block. -/
theorem lowerAll_fills (stmts : List (Stmt Leaf Expr)) (jumps? : Option Jumps)
    {draft : Draft Leaf Expr} {block : BlockId} (ending : Terminator Expr)
    (isEmpty : draft.block? block = some ⟨[], .exit⟩) :
    Fills Machine.idle jumps? draft ((lowerAll jumps? stmts (draft.switchTo block)).finish ending)
      block ending fun fuel => Machine.idle.executeAll fuel stmts :=
  Places.fill block ending isEmpty
    (lowerAll_places Machine.idle stmts jumps? (draft.switchTo block) (draft.lt_next isEmpty))

end Layout
end NullFlow
