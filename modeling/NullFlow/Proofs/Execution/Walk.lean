import NullFlow.Proofs.Execution.Machine
/-!
Walks through control-flow graphs. A walk runs the steps of a block in order and then leaves the
block by its terminator. It is cut short when it has entered a given number of blocks.
-/

namespace NullFlow

/-- A place in a graph: a block, and the number of its steps that lie behind. -/
structure Point where
  block : BlockId
  index : Nat

namespace Point

/-- The start of a block. -/
def atStart (block : BlockId) : Point := ⟨block, 0⟩

/-- The place after the next step. -/
def next (point : Point) : Point := ⟨point.block, point.index + 1⟩

end Point

namespace Machine

variable {Leaf Expr State : Type} (machine : Machine Leaf Expr State)

/-- Runs steps and a terminator. Control goes on in a block, or the execution ends. -/
def pass (steps : List (Step Leaf Expr)) (terminator : Terminator Expr) (state : State) :
    Except (Ending × State) (BlockId × State) :=
  match machine.steps steps state with
  | .error state => .error (.stopped, state)
  | .ok state => machine.leave terminator state

variable {machine} {state later : State} {terminator : Terminator Expr} {target : BlockId}

/-- Control leaves a block along an edge. -/
theorem leave_edge (goesOn : machine.leave terminator state = .ok (target, later)) :
    ∃ kind, (target, kind) ∈ terminator.successors := by
  cases terminator with
  | goto other =>
      obtain ⟨rfl, rfl⟩ := Prod.mk.inj (Except.ok.inj goesOn)
      exact ⟨_, List.mem_singleton_self _⟩
  | branch condition whenTrue whenFalse =>
      rw [leave] at goesOn
      split at goesOn
      · cases goesOn
      · obtain ⟨rfl, rfl⟩ := Prod.mk.inj (Except.ok.inj goesOn)
        exact ⟨_, List.mem_cons_self⟩
      · obtain ⟨rfl, rfl⟩ := Prod.mk.inj (Except.ok.inj goesOn)
        exact ⟨_, List.mem_cons_of_mem _ List.mem_cons_self⟩
  | switch scrutinee targets =>
      rw [leave] at goesOn
      split at goesOn
      · cases goesOn
      · split at goesOn
        · rename_i arm isArm
          obtain ⟨rfl, rfl⟩ := Prod.mk.inj (Except.ok.inj goesOn)
          exact ⟨_, List.mem_map.mpr ⟨(arm, _), List.mem_zipIdx_iff_getElem?.mpr isArm, rfl⟩⟩
        · cases goesOn
  | returnValue value? span =>
      rw [leave] at goesOn
      split at goesOn <;> cases goesOn
  | throwValue value? =>
      rw [leave] at goesOn
      split at goesOn <;> cases goesOn
  | exit => cases goesOn

/-- A pass goes on along an edge. -/
theorem pass_edge {steps : List (Step Leaf Expr)}
    (goesOn : machine.pass steps terminator state = .ok (target, later)) :
    ∃ kind, (target, kind) ∈ terminator.successors := by
  rw [pass] at goesOn
  split at goesOn
  · cases goesOn
  · exact leave_edge goesOn

end Machine

namespace FlowGraph

variable {Leaf Expr State : Type} (graph : FlowGraph Leaf Expr) (machine : Machine Leaf Expr State)

/-- Walks from the start of a block and enters at most `fuel` blocks. Outside the graph there is
nothing to run. -/
def walk : Nat → BlockId → State → Progress State
  | 0, _, state => .running state
  | fuel + 1, id, state =>
      match graph.blocks[id]? with
      | none => .ended .fellOff state
      | some block =>
          match machine.pass block.steps block.terminator state with
          | .error (ending, state) => .ended ending state
          | .ok (target, state) => walk fuel target state

/-- Walks on from a place in the graph and enters at most `fuel` further blocks. -/
def walkFrom (fuel : Nat) (point : Point) (state : State) : Progress State :=
  match graph.blocks[point.block]? with
  | none => .ended .fellOff state
  | some block =>
      match machine.pass (block.steps.drop point.index) block.terminator state with
      | .error (ending, state) => .ended ending state
      | .ok (target, state) => graph.walk machine fuel target state

/-- The next step at a place in the graph. -/
def StepAt (point : Point) (step : Step Leaf Expr) : Prop :=
  ∃ block, graph.blocks[point.block]? = some block ∧ block.steps[point.index]? = some step

/-- The steps of a block all lie behind a place, and the terminator comes next. -/
def LeavesBy (point : Point) (terminator : Terminator Expr) : Prop :=
  ∃ block, graph.blocks[point.block]? = some block ∧ block.steps.length = point.index ∧
    block.terminator = terminator

section Laws

variable {graph} {machine}

/-- A walk with fuel passes through one block. -/
theorem walk_succ (fuel : Nat) (block : BlockId) (state : State) :
    graph.walk machine (fuel + 1) block state =
      graph.walkFrom machine fuel (.atStart block) state := by
  rw [walk, walkFrom]
  rfl

/-- A step takes the walk to the place after it. -/
theorem walkFrom_step {point : Point} {step : Step Leaf Expr} (here : graph.StepAt point step)
    (fuel : Nat) (state : State) :
    graph.walkFrom machine fuel point state =
      match machine.step step state with
      | .error state => .ended .stopped state
      | .ok state => graph.walkFrom machine fuel point.next state := by
  obtain ⟨block, found, nextStep⟩ := here
  obtain ⟨inside, rfl⟩ := List.getElem?_eq_some_iff.mp nextStep
  simp only [walkFrom, found, Point.next, Machine.pass]
  rw [List.drop_eq_getElem_cons inside, Machine.steps]
  cases machine.step block.steps[point.index] state <;> rfl

/-- A terminator takes the walk to another block or ends it. -/
theorem walkFrom_leave {point : Point} {terminator : Terminator Expr}
    (here : graph.LeavesBy point terminator) (fuel : Nat) (state : State) :
    graph.walkFrom machine fuel point state =
      match machine.leave terminator state with
      | .error (ending, state) => .ended ending state
      | .ok (target, state) => graph.walk machine fuel target state := by
  obtain ⟨block, found, length, rfl⟩ := here
  simp only [walkFrom, found, Machine.pass]
  rw [← length, List.drop_length, Machine.steps]

/-- More fuel does not change how a walk ends. -/
theorem walk_ended {fuel : Nat} {block : BlockId} {state final : State} {ending : Ending}
    (ended : graph.walk machine fuel block state = .ended ending final) (more : Nat) :
    graph.walk machine (fuel + more) block state = .ended ending final := by
  induction fuel generalizing block state with
  | zero => simp [walk] at ended
  | succ fuel ih =>
      rw [Nat.succ_add, walk]
      rw [walk] at ended
      cases found : graph.blocks[block]? with
      | none => simpa [found] using ended
      | some here =>
          simp only [found] at ended ⊢
          cases passed : machine.pass here.steps here.terminator state with
          | error last => simpa [passed] using ended
          | ok onward =>
              simp only [passed] at ended ⊢
              exact ih ended

/-- A walk with more fuel goes on where the walk with less was cut short. -/
theorem walk_add {fuel : Nat} {block : BlockId} {state cut : State}
    (running : graph.walk machine fuel block state = .running cut) :
    ∃ target, ∀ more,
      graph.walk machine (fuel + more) block state = graph.walk machine more target cut := by
  induction fuel generalizing block state with
  | zero =>
      simp only [walk, Progress.running.injEq] at running
      exact ⟨block, fun more => by rw [Nat.zero_add, running]⟩
  | succ fuel ih =>
      rw [walk] at running
      cases found : graph.blocks[block]? with
      | none => simp [found] at running
      | some here =>
          simp only [found] at running
          cases passed : machine.pass here.steps here.terminator state with
          | error last => simp [passed] at running
          | ok onward =>
              simp only [passed] at running
              obtain ⟨target, goesOn⟩ := ih running
              refine ⟨target, fun more => ?_⟩
              rw [Nat.succ_add, walk]
              simp only [found, passed]
              exact goesOn more

end Laws
end FlowGraph
end NullFlow
