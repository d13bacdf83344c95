import NullFlow.Proofs.Body.Trees
import NullFlow.Proofs.Execution.Correspondence
import NullFlow.Proofs.FlowGraph.Occurrences
/-!
The events of an execution. They leave open what the parts of a program do: the execution only
notes them, and its choices tell how every condition turns out and which way every switch goes.
-/

namespace NullFlow

/-- What an execution does at one point of the program. -/
inductive Event (Leaf Expr : Type) where
  | simple (leaf : Leaf)
  | update (expr : Expr)
  | condition (expr : Expr)
  | scrutinee (expr : Expr)
  | returned (expr : Expr)
  | thrown (expr : Expr)
deriving DecidableEq

/-- How the conditions and the switches of one execution turn out. A choice may depend on all
events before it. -/
structure Choices (Leaf Expr : Type) where
  outcome : List (Event Leaf Expr) → Bool
  /-- The number of the way out of a switch, counted modulo the number of ways. -/
  way : List (Event Leaf Expr) → Nat

namespace Choices

variable {Leaf Expr : Type} (choices : Choices Leaf Expr)

/-- The machine that notes the events in their order. -/
def machine : Machine Leaf Expr (List (Event Leaf Expr)) where
  simple leaf events := .ok (events ++ [.simple leaf])
  update expr events := .ok (events ++ [.update expr])
  decide condition events := .ok (choices.outcome events, events ++ [.condition condition])
  choose scrutinee _ events := .ok (choices.way events, events ++ [.scrutinee scrutinee])
  answer value? events := .ok (events ++ value?.toList.map .returned)
  raise value? events := .ok (events ++ value?.toList.map .thrown)

/-- The steps of a block add to the events that came before. -/
theorem steps_extend (steps : List (Step Leaf Expr)) (events : List (Event Leaf Expr)) :
    ∃ more, choices.machine.steps steps events = .ok (events ++ more) := by
  induction steps generalizing events with
  | nil => exact ⟨[], by rw [List.append_nil]; rfl⟩
  | cons step rest ih =>
      cases step with
      | simple leaf =>
          obtain ⟨more, rests⟩ := ih (events ++ [.simple leaf])
          exact ⟨.simple leaf :: more, by simpa [Machine.steps, Machine.step, machine] using rests⟩
      | update expr =>
          obtain ⟨more, rests⟩ := ih (events ++ [.update expr])
          exact ⟨.update expr :: more, by simpa [Machine.steps, Machine.step, machine] using rests⟩

/-- A terminator only adds events. -/
theorem leave_extends (terminator : Terminator Expr) (events : List (Event Leaf Expr)) :
    match choices.machine.leave terminator events with
    | .ok (_, later) => events <+: later
    | .error (_, later) => events <+: later := by
  cases terminator with
  | goto target => exact List.prefix_refl _
  | branch condition whenTrue whenFalse =>
      simp only [Machine.leave, machine]
      cases choices.outcome events <;> exact List.prefix_append _ _
  | switch scrutinee targets =>
      simp only [Machine.leave, machine]
      cases targets[choices.way events % targets.length]? <;> exact List.prefix_append _ _
  | returnValue value? span => exact List.prefix_append _ _
  | throwValue value? => exact List.prefix_append _ _
  | exit => exact List.prefix_refl _

/-- A walk only adds events. -/
theorem walk_extends (graph : FlowGraph Leaf Expr) (fuel : Nat) (block : BlockId)
    (events : List (Event Leaf Expr)) :
    events <+: (graph.walk choices.machine fuel block events).state := by
  induction fuel generalizing block events with
  | zero => exact List.prefix_refl _
  | succ fuel ih =>
      rw [FlowGraph.walk]
      cases graph.blocks[block]? with
      | none => exact List.prefix_refl _
      | some found =>
          simp only [Machine.pass]
          obtain ⟨more, stepped⟩ := choices.steps_extend found.steps events
          have left := choices.leave_extends found.terminator (events ++ more)
          simp only [stepped]
          cases leaves : choices.machine.leave found.terminator (events ++ more) with
          | error last =>
              rw [leaves] at left
              exact (List.prefix_append _ _).trans left
          | ok onward =>
              rw [leaves] at left
              exact ((List.prefix_append _ _).trans left).trans (ih onward.1 onward.2)

/-- A walk with more fuel only adds events to a walk with less. -/
theorem walk_mono (graph : FlowGraph Leaf Expr) {fewer fuel : Nat} (enough : fewer ≤ fuel)
    (block : BlockId) (events : List (Event Leaf Expr)) :
    (graph.walk choices.machine fewer block events).state <+:
      (graph.walk choices.machine fuel block events).state := by
  obtain ⟨more, rfl⟩ := Nat.exists_eq_add_of_le enough
  cases reached : graph.walk choices.machine fewer block events with
  | ended ending final =>
      simp only [FlowGraph.walk_ended reached more, List.prefix_refl]
  | running cut =>
      obtain ⟨target, goesOn⟩ := FlowGraph.walk_add reached
      rw [goesOn]
      exact choices.walk_extends graph more target cut

/-- Structured executions and walks do the same events in the same order, also if they never end:
whatever one of them does first, the other does first. -/
theorem run_prefix_iff_walk_prefix {root : Stmt Leaf Expr}
    (placed : root.jumpsPlaced false false = true) (segment : List (Event Leaf Expr)) :
    (∃ fuel, segment <+: (choices.machine.run root fuel []).state) ↔
      ∃ fuel, segment <+:
        ((FlowGraph.ofStmt root).walk choices.machine fuel FlowGraph.entry []).state := by
  constructor
  · rintro ⟨fuel, starts⟩
    cases reached : choices.machine.run root fuel [] with
    | ended ending final =>
        obtain ⟨delay, arrives⟩ := walk_of_run_ended placed reached
        rw [reached] at starts
        exact ⟨0 + delay, by rw [arrives]; exact starts⟩
    | running cut =>
        obtain ⟨more, enough, walked⟩ := walk_of_run_running reached
        rw [reached] at starts
        exact ⟨more, by rw [walked]; exact starts⟩
  · rintro ⟨fuel, starts⟩
    refine ⟨fuel, ?_⟩
    cases reached : choices.machine.run root fuel [] with
    | ended ending final =>
        obtain ⟨delay, arrives⟩ := walk_of_run_ended placed reached
        have later := choices.walk_mono (FlowGraph.ofStmt root) (Nat.le_add_right fuel delay)
          FlowGraph.entry []
        rw [arrives] at later
        exact starts.trans later
    | running cut =>
        obtain ⟨more, enough, walked⟩ := walk_of_run_running reached
        have later := choices.walk_mono (FlowGraph.ofStmt root) enough FlowGraph.entry []
        rw [walked] at later
        exact starts.trans later

end Choices
end NullFlow

/-!
The graphs of valid bodies and of the lambdas in them mean what the statements mean.
-/

namespace NullFlow

namespace Body

/-- The tree and its graph do the same events in the same order and end alike, whatever the choices.
What is said of finite beginnings covers the executions that never end. -/
def SameEvents (tree : Stmt StmtId ExprId) : Prop :=
  ∀ choices : Choices StmtId ExprId,
    (∀ ending events,
      (∃ fuel, choices.machine.run tree fuel [] = .ended ending events) ↔
        ∃ fuel, (FlowGraph.ofStmt tree).walk choices.machine fuel FlowGraph.entry [] =
          .ended ending events) ∧
    ∀ segment : List (Event StmtId ExprId),
      (∃ fuel, segment <+: (choices.machine.run tree fuel []).state) ↔
        ∃ fuel, segment <+:
          ((FlowGraph.ofStmt tree).walk choices.machine fuel FlowGraph.entry []).state

/-- Every statement inside a valid body has a tree, among them the root and the blocks of all
lambdas. If its jumps have targets, then the lowering of the tree preserves what it does. -/
theorem lowering_preserves_events (body : Body) (valid : body.validate = .ok ()) (id : StmtId)
    (reached : body.Reaches (.stmt id)) :
    ∃ tree, body.stmtTree? id = some tree ∧
      (tree.jumpsPlaced false false = true → SameEvents tree) := by
  obtain ⟨tree, found⟩ := stmtTree?_exists valid reached
  refine ⟨tree, found, fun placed choices => ⟨fun ending events => ?_, fun segment => ?_⟩⟩
  · exact run_ends_iff_walk_ends placed
  · exact choices.run_prefix_iff_walk_prefix placed segment

/-- A `for` around a switch of which one arm goes on with the loop and the other leaves the
switch. -/
def loopOverSwitch : Body where
  name := "M"
  span? := none
  thisType? := none
  parameters := [0]
  returnType := .void
  locals := #[⟨"x", .named "C" [] .nullable, false⟩]
  exprs := #[⟨.read 0, some (.named "C" [] .nullable), .none⟩,
    ⟨.test 0 .null, some (.value "bool" .plain), .none⟩, ⟨.read 0, none, .none⟩]
  stmts := #[⟨.continueLoop, .none⟩, ⟨.breakOut, .none⟩,
    ⟨.switch 2 [⟨some .null, [0]⟩, ⟨none, [1]⟩], .none⟩, ⟨.forLoop [] (some 1) [0] 2, .none⟩,
    ⟨.block [3], .none⟩]
  root := 4

/-- A loop around a switch, with jumps out of both, has the same events in both forms. -/
theorem loopOverSwitch_preserves_events :
    loopOverSwitch.validate = .ok () ∧ loopOverSwitch.Reaches (.stmt 4) ∧
    ∃ tree, loopOverSwitch.stmtTree? 4 = some tree ∧ tree.jumpsPlaced false false = true ∧
      SameEvents tree := by
  have valid : loopOverSwitch.validate = .ok () := rfl
  have reached : loopOverSwitch.Reaches (.stmt 4) := .refl
  obtain ⟨tree, found, same⟩ := lowering_preserves_events loopOverSwitch valid 4 reached
  have placed : tree.jumpsPlaced false false = true := by
    obtain rfl := Option.some.inj found
    rfl
  exact ⟨valid, reached, tree, found, placed, same placed⟩

/-- Every statement inside a valid body has a tree, among them the root and the blocks of all
lambdas. The graph of the tree has the same steps, branches, switches, returns and throws as the tree,
each as often. -/
theorem lowering_conserves (body : Body) (valid : body.validate = .ok ()) (id : StmtId)
    (reached : body.Reaches (.stmt id)) :
    ∃ tree, body.stmtTree? id = some tree ∧ (FlowGraph.ofStmt tree).Numbered ∧
      (FlowGraph.ofStmt tree).Conserves tree := by
  obtain ⟨tree, found⟩ := stmtTree?_exists valid reached
  exact ⟨tree, found, FlowGraph.numbered _, FlowGraph.ofStmt_conserves tree⟩

/-- A return, and behind it an `if` whose branches are the statement that also comes after it. -/
def sharedTail : Body where
  name := "M"
  span? := none
  thisType? := none
  parameters := [0]
  returnType := .void
  locals := #[⟨"x", .named "C" [] .nullable, false⟩]
  exprs := #[⟨.read 0, some (.named "C" [] .nullable), .none⟩,
    ⟨.test 0 .null, some (.value "bool" .plain), .none⟩]
  stmts := #[⟨.evaluate 0, .none⟩, ⟨.returnValue none, .none⟩, ⟨.ifElse 1 0 (some 0), .none⟩,
    ⟨.block [1, 2, 0], .none⟩]
  root := 3

/-- What is dead has its place in the graph, and what is shared has as many as it has parents. -/
theorem sharedTail_conserves :
    sharedTail.validate = .ok () ∧ sharedTail.Reaches (.stmt 3) ∧
    ∃ tree, sharedTail.stmtTree? 3 = some tree ∧
      tree.occurrences = [.returned none .none, .condition 1, .simple 0, .simple 0, .simple 0] ∧
      (FlowGraph.ofStmt tree).Numbered ∧ (FlowGraph.ofStmt tree).Conserves tree := by
  have valid : sharedTail.validate = .ok () := rfl
  have reached : sharedTail.Reaches (.stmt 3) := .refl
  obtain ⟨tree, found, numbered, conserves⟩ := lowering_conserves sharedTail valid 3 reached
  refine ⟨valid, reached, tree, found, ?_, numbered, conserves⟩
  obtain rfl := Option.some.inj found
  rfl

end Body
end NullFlow
