import NullFlow.FlowGraph.Format
import NullFlow.Proofs.Execution.Lowering
import NullFlow.Proofs.FlowGraph.Placement
/-!
What occurs in a statement tree, and what occurs in the blocks of a graph. The lowering ends no block
twice and loses no block, so the graph of a tree has every occurrence of the tree as often as the tree,
and no other.
-/

namespace NullFlow

variable {Leaf Expr : Type}

/-- Something that a statement does and that a block has a place for. -/
inductive Occurrence (Leaf Expr : Type) where
  | simple (leaf : Leaf)
  | update (expr : Expr)
  | condition (expr : Expr)
  /-- A switch with the patterns of the ways out of it, in their order. -/
  | switch (scrutinee : Expr) (patterns : List (Option Pattern))
  | returned (value? : Option Expr) (span : Span)
  | thrown (value? : Option Expr)

section Blocks

def Step.occurrence : Step Leaf Expr → Occurrence Leaf Expr
  | .simple leaf => .simple leaf
  | .update expr => .update expr

def Terminator.occurrence? : Terminator Expr → Option (Occurrence Leaf Expr)
  | .goto _ => none
  | .branch condition _ _ => some (.condition condition)
  | .switch scrutinee targets => some (.switch scrutinee (targets.map SwitchTarget.pattern?))
  | .returnValue value? span => some (.returned value? span)
  | .throwValue value? => some (.thrown value?)
  | .exit => none

/-- The steps of a block, and its end unless this only leads on. -/
def Block.occurrences (block : Block Leaf Expr) : List (Occurrence Leaf Expr) :=
  block.steps.map Step.occurrence ++ block.terminator.occurrence?.toList

def FlowGraph.occurrences (graph : FlowGraph Leaf Expr) : List (Occurrence Leaf Expr) :=
  graph.blocks.toList.flatMap Block.occurrences

end Blocks

section Trees

namespace Stmt

mutual

/-- What occurs in a statement, also where control never comes to. -/
def occurrences : Stmt Leaf Expr → List (Occurrence Leaf Expr)
  | .simple leaf => [.simple leaf]
  | .empty => []
  | .block stmts => occurrencesAll stmts
  | .ifElse condition thenBranch none => .condition condition :: occurrences thenBranch
  | .ifElse condition thenBranch (some elseBranch) =>
      .condition condition :: (occurrences thenBranch ++ occurrences elseBranch)
  | .whileLoop condition body => .condition condition :: occurrences body
  | .doWhile body condition => occurrences body ++ [.condition condition]
  | .forLoop init condition? updates body =>
      occurrencesAll init ++ (condition?.toList.map .condition ++
        (occurrences body ++ updates.map .update))
  | .switch scrutinee arms =>
      .switch scrutinee (switchWays (arms.map Arm.pattern?)) :: occurrencesArms arms
  | .breakOut => []
  | .continueLoop => []
  | .returnValue value? span => [.returned value? span]
  | .throwValue value? => [.thrown value?]

def occurrencesAll : List (Stmt Leaf Expr) → List (Occurrence Leaf Expr)
  | [] => []
  | stmt :: rest => occurrences stmt ++ occurrencesAll rest

def occurrencesArms : List (Arm (Stmt Leaf Expr)) → List (Occurrence Leaf Expr)
  | [] => []
  | ⟨_, body⟩ :: rest => occurrencesAll body ++ occurrencesArms rest

end

end Stmt

end Trees

namespace Draft

section Changes

variable {draft : Draft Leaf Expr}

def occurrences (draft : Draft Leaf Expr) : List (Occurrence Leaf Expr) :=
  draft.blocks.toList.flatMap Block.occurrences

/-- The blocks of a draft got so much more. -/
def Gains (before after : Draft Leaf Expr) (added : List (Occurrence Leaf Expr)) : Prop :=
  after.occurrences.Perm (before.occurrences ++ added)

theorem Gains.refl (draft : Draft Leaf Expr) : Gains draft draft [] := by
  rw [Gains, List.append_nil]

/-- What a draft gains in two steps it gains together. -/
theorem Gains.trans {first second third : Draft Leaf Expr}
    {early late : List (Occurrence Leaf Expr)} (before : Gains first second early)
    (after : Gains second third late) : Gains first third (early ++ late) := by
  rw [Gains, ← List.append_assoc]
  exact List.Perm.trans after (List.Perm.append_right late before)

/-- A list gains the parts that one of its items gains. -/
theorem flatMap_modify {Item Part : Type} {parts : Item → List Part} {change : Item → Item}
    {added : List Part} {items : List Item} {index : Nat} {item : Item}
    (found : items[index]? = some item) (grown : (parts (change item)).Perm (parts item ++ added)) :
    ((items.modify index change).flatMap parts).Perm (items.flatMap parts ++ added) := by
  induction items generalizing index with
  | nil => cases found
  | cons head rest ih =>
      cases index with
      | zero =>
          obtain rfl := Option.some.inj found
          rw [List.modify_zero_cons, List.flatMap_cons, List.flatMap_cons]
          refine (grown.append_right _).trans ?_
          rw [List.append_assoc, List.append_assoc]
          exact List.perm_append_comm.append_left _
      | succ index =>
          rw [List.modify_succ_cons, List.flatMap_cons, List.flatMap_cons, List.append_assoc]
          exact (ih found).append_left _

/-- The current block has not ended yet. The lowering ends no other blocks, so that no ending is
overwritten. -/
def Ready (draft : Draft Leaf Expr) : Prop :=
  ∃ steps, draft.block? draft.current = some ⟨steps, .exit⟩

/-- A draft that is ready has an open block. -/
theorem Ready.isOpen (ready : draft.Ready) : draft.IsOpen := by
  obtain ⟨steps, found⟩ := ready
  exact draft.lt_next found

/-- A draft is ready in a block that is still empty. -/
theorem ready_switchTo {block : BlockId} (isEmpty : draft.block? block = some ⟨[], .exit⟩) :
    (draft.switchTo block).Ready := ⟨[], isEmpty⟩

/-- Reserving blocks stores nothing. -/
theorem gains_reserve (draft : Draft Leaf Expr) (count : Nat) :
    Gains draft (draft.reserve count) [] := by
  have nothing : (List.replicate count (⟨[], .exit⟩ : Block Leaf Expr)).flatMap
      Block.occurrences = [] := by
    rw [List.flatMap_eq_nil_iff]
    intro block member
    rw [List.eq_of_mem_replicate member]
    rfl
  rw [Gains, occurrences, reserve, Array.toList_append, Array.toList_replicate, List.flatMap_append,
    nothing]
  exact .refl _

theorem Ready.push (ready : draft.Ready) (step : Step Leaf Expr) : (draft.push step).Ready := by
  obtain ⟨steps, found⟩ := ready
  exact ⟨steps ++ [step], by simp [block?_push, found]⟩

/-- A step is stored once. -/
theorem Ready.gains_push (ready : draft.Ready) (step : Step Leaf Expr) :
    Gains draft (draft.push step) [step.occurrence] := by
  obtain ⟨steps, found⟩ := ready
  rw [Gains, occurrences, Draft.push, Array.toList_modify]
  refine flatMap_modify (by simpa [block?] using found) ?_
  simp [Block.occurrences, Terminator.occurrence?]

/-- Ending a block that has not ended loses nothing. -/
theorem Ready.gains_finish (ready : draft.Ready) (terminator : Terminator Expr) :
    Gains draft (draft.finish terminator) terminator.occurrence?.toList := by
  obtain ⟨steps, found⟩ := ready
  rw [Gains, occurrences, Draft.finish, Array.toList_modify]
  refine flatMap_modify (by simpa [block?] using found) ?_
  simp [Block.occurrences, Terminator.occurrence?]

theorem Ready.reserve (ready : draft.Ready) (count : Nat) : (draft.reserve count).Ready := by
  obtain ⟨steps, found⟩ := ready
  exact ⟨steps, by rw [current_reserve, block?_reserve_old draft count (draft.lt_next found), found]⟩

/-- A terminator is stored once, and the blocks reserved before it store nothing. -/
theorem Ready.gains_opened (ready : draft.Ready) (count : Nat) (terminator : Terminator Expr) :
    Gains draft (opened draft count terminator) terminator.occurrence?.toList :=
  (gains_reserve draft count).trans ((ready.reserve count).gains_finish terminator)

/-- After a jump the draft is ready in a new block. -/
theorem ready_jump (draft : Draft Leaf Expr) (terminator : Terminator Expr) :
    (draft.jump terminator).Ready := by
  refine ready_switchTo (block?_reserve_new _ 1 ?_ ?_) <;> simp

/-- The terminator of a jump is stored once. -/
theorem Ready.gains_jump (ready : draft.Ready) (terminator : Terminator Expr) :
    Gains draft (draft.jump terminator) terminator.occurrence?.toList := by
  have gains := (ready.gains_finish terminator).trans (gains_reserve (draft.finish terminator) 1)
  rwa [List.append_nil] at gains

end Changes

section Operations

/-- An operation on drafts adds so much more and leaves the current block open. -/
def Stores (operation : Draft Leaf Expr → Draft Leaf Expr)
    (added : List (Occurrence Leaf Expr)) : Prop :=
  ∀ draft : Draft Leaf Expr, draft.Ready →
    (operation draft).Ready ∧ Gains draft (operation draft) added

variable {first second : Draft Leaf Expr → Draft Leaf Expr}
  {early late added : List (Occurrence Leaf Expr)}

theorem stores_nothing : Stores (id : Draft Leaf Expr → Draft Leaf Expr) [] :=
  fun draft ready => ⟨ready, .refl draft⟩

/-- Two parts of a lowering store what each of them stores. -/
theorem Stores.seq (before : Stores first early) (after : Stores second late) :
    Stores (fun draft => second (first draft)) (early ++ late) := by
  intro draft ready
  obtain ⟨middle, gainsFirst⟩ := before draft ready
  obtain ⟨last, gainsSecond⟩ := after _ middle
  exact ⟨last, gainsFirst.trans gainsSecond⟩

/-- Adding a step stores it once. -/
theorem stores_push (step : Step Leaf Expr) :
    Stores (fun draft => draft.push step) [step.occurrence] :=
  fun _ ready => ⟨ready.push step, ready.gains_push step⟩

/-- A jump stores its expression once, if it has one. -/
theorem stores_jump (terminator : Terminator Expr) :
    Stores (fun draft : Draft Leaf Expr => draft.jump terminator)
      terminator.occurrence?.toList :=
  fun draft ready => ⟨ready_jump draft terminator, ready.gains_jump terminator⟩

/-- The updates of a loop are stored in their order. -/
theorem stores_updates (updates : List Expr) :
    Stores (fun draft : Draft Leaf Expr =>
      updates.foldl (fun draft expr => draft.push (.update expr)) draft) (updates.map .update) := by
  induction updates with
  | nil => exact stores_nothing
  | cons expr rest ih => exact (stores_push (.update expr)).seq ih

end Operations

section Fillings

variable {before after : Draft Leaf Expr} {block : BlockId} {added : List (Occurrence Leaf Expr)}

/-- An empty block was filled, and new blocks. -/
structure Filled (before after : Draft Leaf Expr) (block : BlockId)
    (added : List (Occurrence Leaf Expr)) : Prop where
  frame : ∀ id, id < before.next → id ≠ block → after.block? id = before.block? id
  gains : Gains before after added

/-- Filling one block leaves every other block that is still empty as it is. -/
theorem Filled.keeps (filled : Filled before after block added) {id : BlockId}
    (other : id ≠ block) (isEmpty : before.block? id = some ⟨[], .exit⟩) :
    after.block? id = some ⟨[], .exit⟩ :=
  (filled.frame id (before.lt_next isEmpty) other).trans isEmpty

/-- A block that is ended at once stores its terminator alone. -/
theorem filled_ending (isEmpty : before.block? block = some ⟨[], .exit⟩)
    (terminator : Terminator Expr) :
    Filled before ((before.switchTo block).finish terminator) block
      terminator.occurrence?.toList where
  frame id _ other := (finish_ends isEmpty terminator).frame id other
  gains := (ready_switchTo isEmpty).gains_finish terminator

/-- What an operation stores is filled into an empty block, and this then leads on. -/
theorem Stores.gains_fill {operation : Draft Leaf Expr → Draft Leaf Expr}
    (stores : Stores operation added) (isEmpty : before.block? block = some ⟨[], .exit⟩)
    (target : BlockId) :
    Gains before ((operation (before.switchTo block)).finish (.goto target)) added := by
  obtain ⟨ready, gains⟩ := stores _ (ready_switchTo isEmpty)
  have filled := gains.trans (ready.gains_finish (.goto target))
  rwa [show (Terminator.goto target).occurrence?.toList = ([] : List (Occurrence Leaf Expr)) from rfl,
    List.append_nil] at filled

/-- A block filled with a statement stores what the statement stores. -/
theorem filled_lower {stmt : Stmt Leaf Expr} {jumps? : Option Jumps}
    (stores : Stores (lower jumps? stmt) stmt.occurrences)
    (isEmpty : before.block? block = some ⟨[], .exit⟩) (target : BlockId) :
    Filled before ((lower jumps? stmt (before.switchTo block)).finish (.goto target)) block
      stmt.occurrences where
  frame := (lower_fills stmt jumps? _ isEmpty).frame
  gains := stores.gains_fill isEmpty target

/-- A block filled with statements stores what they store. -/
theorem filled_lowerAll {stmts : List (Stmt Leaf Expr)} {jumps? : Option Jumps}
    (stores : Stores (lowerAll jumps? stmts) (Stmt.occurrencesAll stmts))
    (isEmpty : before.block? block = some ⟨[], .exit⟩) (target : BlockId) :
    Filled before ((lowerAll jumps? stmts (before.switchTo block)).finish (.goto target)) block
      (Stmt.occurrencesAll stmts) where
  frame := (lowerAll_fills stmts jumps? _ isEmpty).frame
  gains := stores.gains_fill isEmpty target

/-- A block filled with updates stores each of them once. -/
theorem filled_updates (updates : List Expr)
    (isEmpty : before.block? block = some ⟨[], .exit⟩) (target : BlockId) :
    Filled before
      ((updates.foldl (fun draft expr => draft.push (.update expr))
        (before.switchTo block)).finish (.goto target)) block (updates.map .update) := by
  obtain ⟨-, current, found⟩ := updates_pushed updates (before.switchTo block)
  refine ⟨fun id _ other => ?_, (stores_updates updates).gains_fill isEmpty target⟩
  rw [block?_finish, current, found, if_neg (by simpa using other), if_neg (by simpa using other),
    block?_switchTo]

end Fillings

end Draft

open Draft

section Compounds

variable {jumps? : Option Jumps}

/-- An if without an else stores its condition and its branch. -/
theorem stores_if (condition : Expr) {thenBranch : Stmt Leaf Expr}
    (taken : Stores (lower jumps? thenBranch) thenBranch.occurrences) :
    Stores (lower jumps? (.ifElse condition thenBranch none))
      (Stmt.ifElse condition thenBranch none).occurrences := by
  intro draft ready
  let base := opened draft 2 (.branch condition draft.next (draft.next + 1))
  let closed := (lower jumps? thenBranch (base.switchTo draft.next)).finish
    (.goto (draft.next + 1))
  have opens : Opens draft base 2 := opened_opens ready.isOpen ..
  have opening : Gains draft base [.condition condition] := ready.gains_opened 2 _
  have branch : Filled base closed _ _ :=
    filled_lower taken (opens.isEmpty draft.next (by grind) (by grind)) _
  have joinEmpty := opens.isEmpty (draft.next + 1) (by grind) (by grind)
  exact ⟨ready_switchTo (branch.keeps (by grind) joinEmpty), opening.trans branch.gains⟩

/-- An if stores its condition and both of its branches. -/
theorem stores_ifElse (condition : Expr) {thenBranch elseBranch : Stmt Leaf Expr}
    (taken : Stores (lower jumps? thenBranch) thenBranch.occurrences)
    (otherwise : Stores (lower jumps? elseBranch) elseBranch.occurrences) :
    Stores (lower jumps? (.ifElse condition thenBranch (some elseBranch)))
      (Stmt.ifElse condition thenBranch (some elseBranch)).occurrences := by
  intro draft ready
  let base := opened draft 3 (.branch condition draft.next (draft.next + 1))
  let half := (lower jumps? thenBranch (base.switchTo draft.next)).finish (.goto (draft.next + 2))
  let closed := (lower jumps? elseBranch (half.switchTo (draft.next + 1))).finish
    (.goto (draft.next + 2))
  have opens : Opens draft base 3 := opened_opens ready.isOpen ..
  have opening : Gains draft base [.condition condition] := ready.gains_opened 3 _
  have first : Filled base half _ _ :=
    filled_lower taken (opens.isEmpty draft.next (by grind) (by grind)) _
  have elseEmpty := opens.isEmpty (draft.next + 1) (by grind) (by grind)
  have second : Filled half closed _ _ :=
    filled_lower otherwise (first.keeps (by grind) elseEmpty) _
  have joinEmpty := opens.isEmpty (draft.next + 2) (by grind) (by grind)
  exact ⟨ready_switchTo (second.keeps (by grind) (first.keeps (by grind) joinEmpty)),
    opening.trans (first.gains.trans second.gains)⟩

/-- A while loop stores its condition and its body. -/
theorem stores_while (condition : Expr) {body : Stmt Leaf Expr}
    (inside : ∀ jumps, Stores (lower (some jumps) body) body.occurrences) :
    Stores (lower jumps? (.whileLoop condition body))
      (Stmt.whileLoop condition body).occurrences := by
  intro draft ready
  let base := opened draft 3 (.goto draft.next)
  let decided := (base.switchTo draft.next).finish
    (.branch condition (draft.next + 1) (draft.next + 2))
  let closed := (lower (some ⟨draft.next, draft.next + 2⟩) body
    (decided.switchTo (draft.next + 1))).finish (.goto draft.next)
  have opens : Opens draft base 3 := opened_opens ready.isOpen ..
  have opening : Gains draft base [] := ready.gains_opened 3 (.goto draft.next)
  have head : Filled base decided _ [.condition condition] :=
    filled_ending (opens.isEmpty draft.next (by grind) (by grind)) _
  have bodyEmpty := opens.isEmpty (draft.next + 1) (by grind) (by grind)
  have loop : Filled decided closed _ _ :=
    filled_lower (inside _) (head.keeps (by grind) bodyEmpty) _
  have afterEmpty := opens.isEmpty (draft.next + 2) (by grind) (by grind)
  exact ⟨ready_switchTo (loop.keeps (by grind) (head.keeps (by grind) afterEmpty)),
    opening.trans (head.gains.trans loop.gains)⟩

/-- A loop with its test at the end stores its body and its condition. -/
theorem stores_doWhile (condition : Expr) {body : Stmt Leaf Expr}
    (inside : ∀ jumps, Stores (lower (some jumps) body) body.occurrences) :
    Stores (lower jumps? (.doWhile body condition))
      (Stmt.doWhile body condition).occurrences := by
  intro draft ready
  let base := opened draft 3 (.goto draft.next)
  let filled := (lower (some ⟨draft.next + 1, draft.next + 2⟩) body
    (base.switchTo draft.next)).finish (.goto (draft.next + 1))
  let closed := (filled.switchTo (draft.next + 1)).finish
    (.branch condition draft.next (draft.next + 2))
  have opens : Opens draft base 3 := opened_opens ready.isOpen ..
  have opening : Gains draft base [] := ready.gains_opened 3 (.goto draft.next)
  have loop : Filled base filled _ _ :=
    filled_lower (inside _) (opens.isEmpty draft.next (by grind) (by grind)) _
  have checkEmpty := opens.isEmpty (draft.next + 1) (by grind) (by grind)
  have check : Filled filled closed _ [.condition condition] :=
    filled_ending (loop.keeps (by grind) checkEmpty) _
  have afterEmpty := opens.isEmpty (draft.next + 2) (by grind) (by grind)
  exact ⟨ready_switchTo (check.keeps (by grind) (loop.keeps (by grind) afterEmpty)),
    opening.trans (loop.gains.trans check.gains)⟩

/-- The loop of a `for` without the statements that come before it. -/
theorem stores_forLoop (condition? : Option Expr) (updates : List Expr) {body : Stmt Leaf Expr}
    (inside : ∀ jumps, Stores (lower (some jumps) body) body.occurrences) :
    Stores (lower jumps? (.forLoop [] condition? updates body))
      (Stmt.forLoop [] condition? updates body).occurrences := by
  intro draft ready
  let base := opened draft 4 (.goto draft.next)
  let decided := (base.switchTo draft.next).finish
    (condition?.elim (.goto (draft.next + 1)) fun condition =>
      .branch condition (draft.next + 1) (draft.next + 3))
  let filled := (lower (some ⟨draft.next + 2, draft.next + 3⟩) body
    (decided.switchTo (draft.next + 1))).finish (.goto (draft.next + 2))
  let closed := (updates.foldl (fun draft expr => draft.push (.update expr))
    (filled.switchTo (draft.next + 2))).finish (.goto draft.next)
  have same : lower jumps? (.forLoop [] condition? updates body) draft =
      closed.switchTo (draft.next + 3) := by
    cases condition? <;> simp only [lower, lowerAll] <;> rfl
  have opens : Opens draft base 4 := opened_opens ready.isOpen ..
  have opening : Gains draft base [] := ready.gains_opened 4 (.goto draft.next)
  have head : Filled base decided draft.next (condition?.toList.map .condition) := by
    have ending := filled_ending (opens.isEmpty draft.next (by grind) (by grind))
    cases condition? with
    | none => exact ending (.goto _)
    | some condition => exact ending (.branch condition _ _)
  have bodyEmpty := opens.isEmpty (draft.next + 1) (by grind) (by grind)
  have loop : Filled decided filled _ _ :=
    filled_lower (inside _) (head.keeps (by grind) bodyEmpty) _
  have stepEmpty := opens.isEmpty (draft.next + 2) (by grind) (by grind)
  have step : Filled filled closed _ _ :=
    filled_updates updates (loop.keeps (by grind) (head.keeps (by grind) stepEmpty)) _
  have afterEmpty := opens.isEmpty (draft.next + 3) (by grind) (by grind)
  rw [same]
  exact ⟨ready_switchTo
      (step.keeps (by grind) (loop.keeps (by grind) (head.keeps (by grind) afterEmpty))),
    opening.trans (head.gains.trans (loop.gains.trans step.gains))⟩

/-- A switch stores its scrutinee and the bodies of its arms. -/
theorem stores_switch (scrutinee : Expr) {arms : List (Arm (Stmt Leaf Expr))}
    (inside : ∀ (jumps : Jumps) (first : BlockId) (draft : Draft Leaf Expr),
      (∀ way, way < arms.length → draft.block? (first + way) = some ⟨[], .exit⟩) →
      Gains draft (lowerArms jumps first arms draft) (Stmt.occurrencesArms arms)) :
    Stores (lower jumps? (.switch scrutinee arms)) (Stmt.switch scrutinee arms).occurrences := by
  intro draft ready
  let continueTo := jumps?.elim draft.next Jumps.continueTo
  let ends : Terminator Expr :=
    .switch scrutinee (switchTargets (draft.next + 1) draft.next (arms.map Arm.pattern?))
  let base := opened draft (arms.length + 1) ends
  let closed := lowerArms ⟨continueTo, draft.next⟩ (draft.next + 1) arms base
  have same : lower jumps? (.switch scrutinee arms) draft = closed.switchTo draft.next := by
    unfold lower
    cases jumps? <;> rfl
  have opens : Opens draft base (arms.length + 1) := opened_opens ready.isOpen ..
  have size := opens.size
  have opening : Gains draft base [.switch scrutinee (switchWays (arms.map Arm.pattern?))] := by
    rw [← switchTargets_patterns (draft.next + 1) draft.next]
    exact ready.gains_opened _ ends
  have armsEmpty : ∀ way, way < arms.length →
      base.block? (draft.next + 1 + way) = some ⟨[], .exit⟩ :=
    fun way isArm => opens.isEmpty _ (by grind) (by grind)
  have afterEmpty : closed.block? draft.next = some ⟨[], .exit⟩ := by
    rw [(lowerArms_fills Machine.idle arms _ _ base armsEmpty).frame _ (by grind) (by grind)]
    exact opens.isEmpty _ (by grind) (by grind)
  rw [same]
  exact ⟨ready_switchTo afterEmpty, opening.trans (inside _ _ base armsEmpty)⟩

end Compounds

section Trees

mutual

/-- The lowering stores every occurrence of a statement, and nothing else. -/
theorem lower_stores : ∀ (stmt : Stmt Leaf Expr) (jumps? : Option Jumps),
    Stores (lower jumps? stmt) stmt.occurrences
  | .simple leaf, _ => by
      simp only [lower, Stmt.occurrences]
      exact stores_push (.simple leaf)
  | .empty, _ => by
      simp only [lower, Stmt.occurrences]
      exact stores_nothing
  | .block stmts, jumps? => by
      simp only [lower, Stmt.occurrences]
      exact lowerAll_stores stmts jumps?
  | .ifElse condition thenBranch none, jumps? =>
      stores_if condition (lower_stores thenBranch jumps?)
  | .ifElse condition thenBranch (some elseBranch), jumps? =>
      stores_ifElse condition (lower_stores thenBranch jumps?) (lower_stores elseBranch jumps?)
  | .whileLoop condition body, _ =>
      stores_while condition fun jumps => lower_stores body (some jumps)
  | .doWhile body condition, _ =>
      stores_doWhile condition fun jumps => lower_stores body (some jumps)
  | .forLoop init condition? updates body, jumps? => by
      -- What comes before the loop is lowered as if it stood in front of it.
      have looped : Stores (lower jumps? (.forLoop [] condition? updates body)) _ :=
        stores_forLoop condition? updates fun jumps => lower_stores body (some jumps)
      have same : lower jumps? (.forLoop init condition? updates body) = fun draft =>
          lower jumps? (.forLoop [] condition? updates body) (lowerAll jumps? init draft) := by
        funext draft
        cases condition? <;> simp only [lower, lowerAll]
      rw [same]
      exact (lowerAll_stores init jumps?).seq looped
  | .switch scrutinee arms, _ =>
      stores_switch scrutinee fun jumps => lowerArms_gains arms jumps
  | .breakOut, jumps? => by
      simp only [lower, Stmt.occurrences]
      cases jumps? with
      | none => exact stores_jump .exit
      | some jumps => exact stores_jump (.goto jumps.breakTo)
  | .continueLoop, jumps? => by
      simp only [lower, Stmt.occurrences]
      cases jumps? with
      | none => exact stores_jump .exit
      | some jumps => exact stores_jump (.goto jumps.continueTo)
  | .returnValue value? span, _ => by
      simp only [lower, Stmt.occurrences]
      exact stores_jump (.returnValue value? span)
  | .throwValue value?, _ => by
      simp only [lower, Stmt.occurrences]
      exact stores_jump (.throwValue value?)
termination_by structural stmt => stmt

/-- Lowering statements stores each of their occurrences once. -/
theorem lowerAll_stores : ∀ (stmts : List (Stmt Leaf Expr)) (jumps? : Option Jumps),
    Stores (lowerAll jumps? stmts) (Stmt.occurrencesAll stmts)
  | [], _ => by
      simp only [lowerAll, Stmt.occurrencesAll]
      exact stores_nothing
  | stmt :: rest, jumps? => by
      simp only [lowerAll, Stmt.occurrencesAll]
      exact (lower_stores stmt jumps?).seq (lowerAll_stores rest jumps?)
termination_by structural stmts => stmts

/-- Lowering the arms of a switch stores each of their occurrences once. -/
theorem lowerArms_gains : ∀ (arms : List (Arm (Stmt Leaf Expr))) (jumps : Jumps)
    (first : BlockId) (draft : Draft Leaf Expr),
    (∀ way, way < arms.length → draft.block? (first + way) = some ⟨[], .exit⟩) →
    Gains draft (lowerArms jumps first arms draft) (Stmt.occurrencesArms arms)
  | [], _, _, draft, _ => by
      simp only [lowerArms, Stmt.occurrencesArms]
      exact .refl draft
  | ⟨_, body⟩ :: rest, jumps, first, draft, empties => by
      simp only [List.length_cons] at empties
      have filled := filled_lowerAll (lowerAll_stores body (some jumps)) (empties 0 (by grind))
        jumps.breakTo
      simp only [lowerArms, Stmt.occurrencesArms]
      refine filled.gains.trans (lowerArms_gains rest jumps (first + 1) _ fun way isArm => ?_)
      rw [Nat.add_assoc, Nat.add_comm 1 way]
      exact filled.keeps (by grind) (empties (way + 1) (by grind))
termination_by structural arms => arms

end

end Trees

namespace FlowGraph

/-- The graph of a statement has every occurrence of the statement as often as the statement. -/
theorem occurrences_ofStmt (root : Stmt Leaf Expr) :
    (FlowGraph.ofStmt root).occurrences.Perm root.occurrences := by
  have isEmpty : (Draft.start : Draft Leaf Expr).block? 0 = some ⟨[], .exit⟩ := rfl
  obtain ⟨ready, gains⟩ := lower_stores root none .start (ready_switchTo isEmpty)
  have ended := gains.trans (ready.gains_finish .exit)
  exact (List.append_nil root.occurrences) ▸ ended

/-- The graph has the contents of the statement, and its tables have the edges of its blocks. -/
structure Conserves (graph : FlowGraph Leaf Expr) (root : Stmt Leaf Expr) : Prop where
  closed : graph.Closed
  /-- A block lists an edge into it as often as the other block has this edge. -/
  incoming : ∀ source target kind, (graph.incoming.getD target []).count (source, kind) =
    (graph.successors source).count (target, kind)
  occurrences : graph.occurrences.Perm root.occurrences

/-- In a closed graph every edge is listed as often at its end as at its start. -/
theorem Closed.count_incoming {graph : FlowGraph Leaf Expr} (closed : graph.Closed)
    (source target : BlockId) (kind : EdgeKind) :
    (graph.incoming.getD target []).count (source, kind) =
      (graph.successors source).count (target, kind) := by
  by_cases inside : (target : Nat) < graph.blocks.size
  · exact FlowGraph.count_incoming graph inside source kind
  · have noEdge : (target, kind) ∉ graph.successors source :=
      fun edge => inside (closed_iff.mp closed edge)
    have notListed : (source, kind) ∉ graph.incoming.getD target [] :=
      fun listed => noEdge (edge_of_mem_incoming listed)
    rw [List.count_eq_zero.mpr noEdge, List.count_eq_zero.mpr notListed]

/-- A lowered graph stores every occurrence of the code once. -/
theorem ofStmt_conserves (root : Stmt Leaf Expr) : (FlowGraph.ofStmt root).Conserves root := by
  obtain ⟨_, structured⟩ := ofStmt_structured root
  exact ⟨structured.closed, structured.closed.count_incoming, occurrences_ofStmt root⟩

/-- The printed graph has every block at its place and under its own number. -/
def Numbered (graph : FlowGraph StmtId ExprId) : Prop :=
  ∃ head entries, graph.toJson = .object (head ++ [("blocks", .array entries)]) ∧
    entries.length = graph.blocks.size ∧
      ∀ id < graph.blocks.size, ∃ fields, entries[id]? = some (.object (("id", .natural id) :: fields))

/-- Blocks are numbered by their places. -/
theorem numbered (graph : FlowGraph StmtId ExprId) : graph.Numbered := by
  refine ⟨[("entry", .natural entry), ("block_count", .natural graph.blocks.size),
    ("reverse_postorder", .list .natural graph.reversePostorder)], _, rfl, by simp, ?_⟩
  intro id inside
  rw [List.getElem?_map, List.getElem?_zipIdx, Array.getElem?_toList,
    Array.getElem?_eq_getElem inside, Nat.zero_add]
  exact ⟨_, rfl⟩

end FlowGraph
end NullFlow
