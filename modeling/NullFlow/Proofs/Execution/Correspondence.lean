import NullFlow.Proofs.Execution.Lowering
/-!
The walk through the graph of a statement tree does what the structured execution of the tree does,
if every jump of the tree has a target. Both end alike, and if one is cut short, the other comes
through the same state.
-/

namespace NullFlow

variable {Leaf Expr State : Type} {machine : Machine Leaf Expr State}

namespace Completion

/-- A break or continue leaves a statement only if there is something around it to jump to. -/
def Placed (inLoop inSwitch : Bool) : Completion State → Prop
  | normal _ => True
  | broke _ => (inLoop || inSwitch) = true
  | continued _ => inLoop = true
  | ended .. => True
  | unfinished _ => True

/-- What follows in order is placed as its parts are. -/
theorem Placed.andThen {inLoop inSwitch : Bool} {completion : Completion State}
    {next : State → Completion State} (first : completion.Placed inLoop inSwitch)
    (second : ∀ state, (next state).Placed inLoop inSwitch) :
    (completion.andThen next).Placed inLoop inSwitch := by
  cases completion with
  | normal state => exact second state
  | _ => exact first

/-- A break in a switch is placed wherever the switch stands. -/
theorem Placed.leaveSwitch {inLoop inSwitch : Bool} {completion : Completion State}
    (placed : completion.Placed inLoop true) : completion.leaveSwitch.Placed inLoop inSwitch := by
  cases completion <;> trivial

end Completion

/-- No jump leaves the loop that a round belongs to. -/
def Round.Placed (inLoop inSwitch : Bool) : Round State → Prop
  | .again _ => True
  | .finished completion => completion.Placed inLoop inSwitch

section Jumps

variable {inLoop inSwitch : Bool}

theorem placed_again (state : State) : (Round.again state).Placed inLoop inSwitch := trivial

/-- Rounds end as they are placed, however many there are. -/
theorem placed_rounds {round : State → Round State}
    (each : ∀ state, (round state).Placed inLoop inSwitch) (count : Nat) (state : State) :
    (rounds round count state).Placed inLoop inSwitch := by
  induction count generalizing state with
  | zero => trivial
  | succ count ih =>
      rw [rounds]
      have leaves := each state
      cases goes : round state with
      | again next => exact ih next
      | finished completion =>
          rw [goes] at leaves
          exact leaves

/-- In the body of a loop every jump is placed. -/
theorem placed_afterBody (completion : Completion State) {next : State → Round State}
    (each : ∀ state, (next state).Placed inLoop inSwitch) :
    (completion.afterBody next).Placed inLoop inSwitch := by
  cases completion with
  | normal state => exact each state
  | continued state => exact each state
  | _ => trivial

/-- A test is placed as what it decides between. -/
theorem placed_test (condition : Expr) {next : Bool → State → Completion State}
    (each : ∀ holds state, (next holds state).Placed inLoop inSwitch) (state : State) :
    (machine.test condition state (.ended .stopped) next).Placed inLoop inSwitch := by
  unfold Machine.test
  rcases machine.decide condition state with stopped | ⟨holds, onward⟩
  · trivial
  · exact each holds onward

theorem placed_guard (condition : Expr) {next : State → Round State}
    (each : ∀ state, (next state).Placed inLoop inSwitch) (state : State) :
    (machine.guard condition next state).Placed inLoop inSwitch := by
  unfold Machine.guard Machine.test
  rcases machine.decide condition state with stopped | ⟨holds, onward⟩
  · trivial
  · cases holds with
    | false => trivial
    | true => exact each onward

theorem placed_endRound (updates : List Expr) (state : State) :
    (machine.endRound updates state).Placed inLoop inSwitch := by
  unfold Machine.endRound
  cases machine.updates updates state <;> trivial

theorem placed_roundFromHead (condition? : Option Expr) (body : State → Completion State)
    {next : State → Round State} (each : ∀ state, (next state).Placed inLoop inSwitch)
    (state : State) :
    (machine.roundFromHead condition? body next state).Placed inLoop inSwitch := by
  unfold Machine.roundFromHead
  cases condition? with
  | none => exact placed_afterBody _ each
  | some condition => exact placed_guard condition (fun state => placed_afterBody _ each) state

variable (machine)

mutual

/-- A statement whose jumps have targets is left by no other jump. -/
theorem execute_placed (fuel : Nat) : ∀ (stmt : Stmt Leaf Expr) (inLoop inSwitch : Bool),
    stmt.jumpsPlaced inLoop inSwitch = true → ∀ state,
    (machine.execute fuel stmt state).Placed inLoop inSwitch
  | .simple leaf, _, _, _, state => by
      simp only [Machine.execute]
      cases machine.simple leaf state <;> trivial
  | .empty, _, _, _, _ => trivial
  | .block stmts, inLoop, inSwitch, placed, state =>
      executeAll_placed fuel stmts inLoop inSwitch placed state
  | .ifElse condition thenBranch none, inLoop, inSwitch, placed, state => by
      simp only [Machine.execute]
      refine placed_test condition (fun holds next => ?_) state
      cases holds with
      | false => trivial
      | true => exact execute_placed fuel thenBranch inLoop inSwitch placed next
  | .ifElse condition thenBranch (some elseBranch), inLoop, inSwitch, placed, state => by
      simp only [Stmt.jumpsPlaced, Bool.and_eq_true] at placed
      simp only [Machine.execute]
      refine placed_test condition (fun holds next => ?_) state
      cases holds with
      | false => exact execute_placed fuel elseBranch inLoop inSwitch placed.2 next
      | true => exact execute_placed fuel thenBranch inLoop inSwitch placed.1 next
  | .whileLoop _ _, _, _, _, state =>
      placed_rounds (placed_roundFromHead _ _ placed_again) fuel state
  | .doWhile body condition, _, _, _, state =>
      placed_rounds (fun _ => placed_afterBody _ (placed_guard condition placed_again)) fuel state
  | .forLoop init _ updates _, inLoop, inSwitch, placed, state => by
      simp only [Stmt.jumpsPlaced, Bool.and_eq_true] at placed
      exact (executeAll_placed fuel init inLoop inSwitch placed.1 state).andThen
        (placed_rounds (placed_roundFromHead _ _ (placed_endRound updates)) fuel)
  | .switch scrutinee arms, inLoop, inSwitch, placed, state => by
      simp only [Machine.execute]
      rcases machine.choose scrutinee (switchWays (arms.map Arm.pattern?)) state with
        stopped | ⟨choice, next⟩
      · trivial
      · exact (executeArm_placed fuel arms inLoop placed _ next).leaveSwitch
  | .breakOut, _, _, placed, _ => placed
  | .continueLoop, _, _, placed, _ => placed
  | .returnValue value? _, _, _, _, state => by
      simp only [Machine.execute]
      cases machine.answer value? state <;> trivial
  | .throwValue value?, _, _, _, state => by
      simp only [Machine.execute]
      cases machine.raise value? state <;> trivial
termination_by structural stmt => stmt

/-- Statements with their jumps placed never end in a jump from nowhere. -/
theorem executeAll_placed (fuel : Nat) :
    ∀ (stmts : List (Stmt Leaf Expr)) (inLoop inSwitch : Bool),
    jumpsPlacedAll inLoop inSwitch stmts = true → ∀ state,
    (machine.executeAll fuel stmts state).Placed inLoop inSwitch
  | [], _, _, _, _ => trivial
  | stmt :: rest, inLoop, inSwitch, placed, state => by
      simp only [jumpsPlacedAll, Bool.and_eq_true] at placed
      exact (execute_placed fuel stmt inLoop inSwitch placed.1 state).andThen
        (executeAll_placed fuel rest inLoop inSwitch placed.2)
termination_by structural stmts => stmts

/-- Arms with their jumps placed never end in a jump from nowhere. -/
theorem executeArm_placed (fuel : Nat) :
    ∀ (arms : List (Arm (Stmt Leaf Expr))) (inLoop : Bool),
    jumpsPlacedArms inLoop arms = true → ∀ way state,
    (machine.executeArm fuel arms way state).Placed inLoop true
  | [], _, _, _, _ => trivial
  | ⟨_, body⟩ :: rest, inLoop, placed, way, state => by
      simp only [jumpsPlacedArms, Bool.and_eq_true] at placed
      cases way with
      | zero => exact executeAll_placed fuel body inLoop true placed.1 state
      | succ way => exact executeArm_placed fuel rest inLoop placed.2 way state
termination_by structural arms => arms

end

end Jumps

section Graphs

variable (machine) (root : Stmt Leaf Expr)

/-- The graph of a tree executes the tree and then falls off the end of the code. -/
theorem ofStmt_simulates :
    ∃ last, Simulates (FlowGraph.ofStmt root) machine none (.atStart FlowGraph.entry) last
        (fun fuel => machine.execute fuel root) ∧
      (FlowGraph.ofStmt root).LeavesBy last .exit := by
  have isEmpty : (Draft.start : Draft Leaf Expr).block? 0 = some ⟨[], .exit⟩ := rfl
  have isOpen : (Draft.start.switchTo 0 : Draft Leaf Expr).IsOpen := by
    simp [Draft.IsOpen, Draft.next, Draft.start, Draft.switchTo]
  have fill := Places.fill 0 .exit isEmpty (lower_places machine root none _ isOpen)
  exact fill.simulates (FlowGraph.ofStmt root) fun id affected inside => rfl

/-- The walk through the graph follows the execution of the code. -/
theorem walk_follows (fuel : Nat) (state : State) :
    ∃ last, Follows (FlowGraph.ofStmt root) machine none last fuel
        (fun fuel => (FlowGraph.ofStmt root).walk machine fuel FlowGraph.entry state)
        (machine.execute fuel root state) ∧
      (FlowGraph.ofStmt root).LeavesBy last .exit := by
  obtain ⟨last, simulates, leaves⟩ := ofStmt_simulates machine root
  exact ⟨last, Follows.after (leads_atStart FlowGraph.entry state) (simulates fuel state), leaves⟩

variable {machine} {root} {fuel : Nat} {ending : Ending} {state final : State}

/-- An execution that is cut short is matched by a walk of at least as many blocks. -/
theorem walk_of_run_running (running : machine.run root fuel state = .running final) :
    ∃ more, fuel ≤ more ∧
      (FlowGraph.ofStmt root).walk machine more FlowGraph.entry state = .running final := by
  obtain ⟨last, follows, leaves⟩ := walk_follows machine root fuel state
  unfold Machine.run at running
  cases reached : machine.execute fuel root state with
  | unfinished next =>
      rw [reached] at follows running
      obtain rfl : next = final := by simpa [Completion.progress] using running
      exact follows
  | _ => simp [reached, Completion.progress] at running

/-- A part that stops the execution stops the walk, wherever the jumps go. -/
theorem walk_of_run_stopped (stopped : machine.run root fuel state = .ended .stopped final) :
    ∃ delay, ∀ more, (FlowGraph.ofStmt root).walk machine (more + delay) FlowGraph.entry state =
      .ended .stopped final := by
  obtain ⟨last, follows, leaves⟩ := walk_follows machine root fuel state
  unfold Machine.run at stopped
  cases reached : machine.execute fuel root state with
  | ended ending next =>
      rw [reached] at follows stopped
      obtain ⟨rfl, rfl⟩ : ending = .stopped ∧ next = final := by
        simpa [Completion.progress] using stopped
      exact follows
  | _ => simp [reached, Completion.progress] at stopped

variable (placed : root.jumpsPlaced false false = true)

include placed

/-- A run that ends is walked to the same end, somewhat later. -/
theorem walk_of_run_ended (ended : machine.run root fuel state = .ended ending final) :
    ∃ delay, ∀ more, (FlowGraph.ofStmt root).walk machine (more + delay) FlowGraph.entry state =
      .ended ending final := by
  obtain ⟨last, follows, leaves⟩ := walk_follows machine root fuel state
  have noJump := execute_placed machine fuel root false false placed state
  unfold Machine.run at ended
  cases reached : machine.execute fuel root state with
  | normal next =>
      rw [reached] at follows ended
      obtain ⟨rfl, rfl⟩ : .fellOff = ending ∧ next = final := by
        simpa [Completion.progress] using ended
      obtain ⟨delay, arrives⟩ := follows
      refine ⟨delay, fun more => ?_⟩
      refine (arrives more).trans ?_
      simp only [FlowGraph.walkFrom_leave leaves, Machine.leave]
  | ended ending' next =>
      rw [reached] at follows ended
      obtain ⟨rfl, rfl⟩ : ending' = ending ∧ next = final := by
        simpa [Completion.progress] using ended
      exact follows
  | unfinished next =>
      rw [reached] at ended
      simp [Completion.progress] at ended
  | broke next =>
      rw [reached] at noJump
      simp [Completion.Placed] at noJump
  | continued next =>
      rw [reached] at noJump
      simp [Completion.Placed] at noJump

/-- A walk that ends within some fuel is matched by an execution with as much fuel. -/
theorem run_of_walk_ended
    (ended : (FlowGraph.ofStmt root).walk machine fuel FlowGraph.entry state =
      .ended ending final) : machine.run root fuel state = .ended ending final := by
  cases reached : machine.run root fuel state with
  | ended ending' final' =>
      obtain ⟨delay, arrives⟩ := walk_of_run_ended placed reached
      have sooner := arrives fuel
      rw [FlowGraph.walk_ended ended delay] at sooner
      exact sooner.symm
  | running next =>
      obtain ⟨more, enough, running⟩ := walk_of_run_running reached
      obtain ⟨extra, rfl⟩ := Nat.exists_eq_add_of_le enough
      rw [FlowGraph.walk_ended ended extra] at running
      cases running

/-- Structured executions and walks end alike. -/
theorem run_ends_iff_walk_ends :
    (∃ fuel, machine.run root fuel state = .ended ending final) ↔
      ∃ fuel, (FlowGraph.ofStmt root).walk machine fuel FlowGraph.entry state =
        .ended ending final := by
  constructor
  · rintro ⟨fuel, ended⟩
    obtain ⟨delay, arrives⟩ := walk_of_run_ended placed ended
    exact ⟨0 + delay, arrives 0⟩
  · rintro ⟨fuel, ended⟩
    exact ⟨fuel, run_of_walk_ended placed ended⟩

end Graphs
end NullFlow
