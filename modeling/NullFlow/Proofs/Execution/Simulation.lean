import NullFlow.FlowGraph.Lowering
import NullFlow.Proofs.Execution.Machine
import NullFlow.Proofs.Execution.Walk
/-!
Structured execution: a statement tree is executed as its source reads. Every loop makes a bounded
number of rounds, so that an execution which never ends is known by the states in which it is cut
short.
-/

namespace NullFlow

/-- How the execution of a statement leaves it. -/
inductive Completion (State : Type) where
  | normal (state : State)
  /-- A break looks for the loop or switch around the statement. -/
  | broke (state : State)
  /-- A continue looks for the loop around the statement. -/
  | continued (state : State)
  | ended (ending : Ending) (state : State)
  /-- Some loop has made all its rounds. -/
  | unfinished (state : State)

/-- How a round of a loop goes. -/
inductive Round (State : Type) where
  | again (state : State)
  | finished (completion : Completion State)

namespace Completion

variable {State : Type}

/-- Executes a second statement after the first. -/
def andThen (completion : Completion State) (next : State → Completion State) : Completion State :=
  match completion with
  | normal state => next state
  | broke state => broke state
  | continued state => continued state
  | ended ending state => ended ending state
  | unfinished state => unfinished state

/-- A break out of a switch ends the switch. -/
def leaveSwitch : Completion State → Completion State
  | normal state => normal state
  | broke state => normal state
  | continued state => continued state
  | ended ending state => ended ending state
  | unfinished state => unfinished state

/-- The rest of a round after the body of a loop. A break ends the loop, and a continue ends the
body alone. -/
def afterBody (completion : Completion State) (next : State → Round State) : Round State :=
  match completion with
  | normal state => next state
  | broke state => .finished (normal state)
  | continued state => next state
  | ended ending state => .finished (ended ending state)
  | unfinished state => .finished (unfinished state)

/-- The execution of the whole code. A break or continue outside all loops ends it. -/
def progress : Completion State → Progress State
  | normal state => .ended .fellOff state
  | broke state => .ended .fellOff state
  | continued state => .ended .fellOff state
  | ended ending state => .ended ending state
  | unfinished state => .running state

end Completion

/-- Makes rounds until one is over, at most so many. -/
def rounds {State : Type} (round : State → Round State) : Nat → State → Completion State
  | 0, state => .unfinished state
  | fuel + 1, state =>
      match round state with
      | .again state => rounds round fuel state
      | .finished completion => completion

namespace Machine

variable {Leaf Expr State : Type} (machine : Machine Leaf Expr State)

/-- Goes on by the outcome of a condition. -/
def test {Result : Type} (condition : Expr) (state : State)
    (stopped : State → Result) (next : Bool → State → Result) : Result :=
  match machine.decide condition state with
  | .error state => stopped state
  | .ok (holds, state) => next holds state

/-- The end of a round: the updates of the loop. -/
def endRound (updates : List Expr) (state : State) : Round State :=
  match machine.updates updates state with
  | .error state => .finished (.ended .stopped state)
  | .ok state => .again state

/-- The loop goes on as long as the condition holds. -/
def guard (condition : Expr) (next : State → Round State) (state : State) : Round State :=
  machine.test condition state (fun state => .finished (.ended .stopped state)) fun holds state =>
    if holds then next state else .finished (.normal state)

/-- A round of a loop that starts with the condition, if there is one. -/
def roundFromHead (condition? : Option Expr) (body : State → Completion State)
    (next : State → Round State) (state : State) : Round State :=
  match condition? with
  | none => (body state).afterBody next
  | some condition => machine.guard condition (fun state => (body state).afterBody next) state

mutual

/-- Executes a statement. Every loop makes at most `fuel` rounds. -/
def execute (fuel : Nat) : Stmt Leaf Expr → State → Completion State
  | .simple leaf, state =>
      match machine.simple leaf state with
      | .error state => .ended .stopped state
      | .ok state => .normal state
  | .empty, state => .normal state
  | .block stmts, state => executeAll fuel stmts state
  | .ifElse condition thenBranch none, state =>
      machine.test condition state (.ended .stopped) fun holds state =>
        if holds then execute fuel thenBranch state else .normal state
  | .ifElse condition thenBranch (some elseBranch), state =>
      machine.test condition state (.ended .stopped) fun holds state =>
        if holds then execute fuel thenBranch state else execute fuel elseBranch state
  | .whileLoop condition body, state =>
      rounds (machine.roundFromHead (some condition) (execute fuel body) .again) fuel state
  | .doWhile body condition, state =>
      rounds (fun state =>
        (execute fuel body state).afterBody (machine.guard condition .again)) fuel state
  | .forLoop init condition? updates body, state =>
      (executeAll fuel init state).andThen
        (rounds
          (machine.roundFromHead condition? (execute fuel body) (machine.endRound updates)) fuel)
  | .switch scrutinee arms, state =>
      let ways := switchWays (arms.map Arm.pattern?)
      match machine.choose scrutinee ways state with
      | .error state => .ended .stopped state
      | .ok (way, state) => (executeArm fuel arms (way % ways.length) state).leaveSwitch
  | .breakOut, state => .broke state
  | .continueLoop, state => .continued state
  | .returnValue value? _, state =>
      match machine.answer value? state with
      | .error state => .ended .stopped state
      | .ok state => .ended .returned state
  | .throwValue value?, state =>
      match machine.raise value? state with
      | .error state => .ended .stopped state
      | .ok state => .ended .threw state
termination_by structural stmt => stmt

/-- Executes statements one after the other. -/
def executeAll (fuel : Nat) : List (Stmt Leaf Expr) → State → Completion State
  | [], state => .normal state
  | stmt :: rest, state => (execute fuel stmt state).andThen (executeAll fuel rest)
termination_by structural stmts => stmts

/-- Executes the arm of the given number. Beyond the last arm control falls out of the switch. -/
def executeArm (fuel : Nat) : List (Arm (Stmt Leaf Expr)) → Nat → State → Completion State
  | [], _, state => .normal state
  | ⟨_, body⟩ :: _, 0, state => executeAll fuel body state
  | _ :: rest, way + 1, state => executeArm fuel rest way state
termination_by structural arms => arms

end

-- The proofs below and in other modules rewrite by the equations of these functions. Lean makes the
-- equations where they are first asked for, which is here.
attribute [local simp] execute executeAll executeArm

/-- The execution of a whole statement tree. -/
def run (root : Stmt Leaf Expr) (fuel : Nat) (state : State) : Progress State :=
  (machine.execute fuel root state).progress

end Machine

section Placement

variable {Leaf Expr : Type}

mutual

/-- Every break in the statement has a loop or switch to leave, and every continue has a loop. The
flags tell what is around the statement. -/
def Stmt.jumpsPlaced (inLoop inSwitch : Bool) : Stmt Leaf Expr → Bool
  | .simple _ => true
  | .empty => true
  | .block stmts => jumpsPlacedAll inLoop inSwitch stmts
  | .ifElse _ thenBranch none => thenBranch.jumpsPlaced inLoop inSwitch
  | .ifElse _ thenBranch (some elseBranch) =>
      thenBranch.jumpsPlaced inLoop inSwitch && elseBranch.jumpsPlaced inLoop inSwitch
  | .whileLoop _ body => body.jumpsPlaced true inSwitch
  | .doWhile body _ => body.jumpsPlaced true inSwitch
  | .forLoop init _ _ body =>
      jumpsPlacedAll inLoop inSwitch init && body.jumpsPlaced true inSwitch
  | .switch _ arms => jumpsPlacedArms inLoop arms
  | .breakOut => inLoop || inSwitch
  | .continueLoop => inLoop
  | .returnValue .. => true
  | .throwValue _ => true
termination_by structural stmt => stmt

def jumpsPlacedAll (inLoop inSwitch : Bool) : List (Stmt Leaf Expr) → Bool
  | [] => true
  | stmt :: rest => stmt.jumpsPlaced inLoop inSwitch && jumpsPlacedAll inLoop inSwitch rest
termination_by structural stmts => stmts

def jumpsPlacedArms (inLoop : Bool) : List (Arm (Stmt Leaf Expr)) → Bool
  | [] => true
  | ⟨_, body⟩ :: rest => jumpsPlacedAll inLoop true body && jumpsPlacedArms inLoop rest
termination_by structural arms => arms

end

end Placement
end NullFlow

/-!
The simulation of structured execution by walks. A future of a walk tells its progress by the fuel.
For every kind of statement, a walk through suitable code does what the statement does.
-/

namespace NullFlow

variable {Leaf Expr State : Type}

/-- A walk comes to a second future when it has spent some fuel. -/
def Leads (future later : Nat → Progress State) : Prop :=
  ∃ delay, ∀ fuel, future (fuel + delay) = later fuel

namespace Leads

theorem refl (future : Nat → Progress State) : Leads future future := ⟨0, fun _ => rfl⟩

/-- What leads on in two steps leads on. -/
theorem trans {first second third : Nat → Progress State} (onward : Leads first second)
    (further : Leads second third) : Leads first third := by
  obtain ⟨delay, reaches⟩ := onward
  obtain ⟨more, continues⟩ := further
  refine ⟨more + delay, fun fuel => ?_⟩
  rw [← Nat.add_assoc, reaches, continues]

end Leads

section Following

variable (graph : FlowGraph Leaf Expr) (machine : Machine Leaf Expr State)

/-- A walk does what a completion says. It ends up at `finish` if the completion is normal, and at
the target of a jump otherwise. If a loop has made all its rounds, then the walk comes through the
same state after at least `least` blocks. -/
def Follows (jumps? : Option Jumps) (finish : Point) (least : Nat)
    (future : Nat → Progress State) : Completion State → Prop
  | .normal state => Leads future fun fuel => graph.walkFrom machine fuel finish state
  | .broke state => ∀ jumps, jumps? = some jumps →
      Leads future fun fuel => graph.walk machine fuel jumps.breakTo state
  | .continued state => ∀ jumps, jumps? = some jumps →
      Leads future fun fuel => graph.walk machine fuel jumps.continueTo state
  | .ended ending state => Leads future fun _ => .ended ending state
  | .unfinished state => ∃ fuel, least ≤ fuel ∧ future fuel = .running state

/-- A walk does what a round of a loop says. If there is another round, it comes to `head`. -/
def FollowsRound (jumps? : Option Jumps) (finish : Point) (least : Nat) (head : BlockId)
    (future : Nat → Progress State) : Round State → Prop
  | .again state => Leads future fun fuel => graph.walk machine fuel head state
  | .finished completion => Follows graph machine jumps? finish least future completion

/-- The code between two places executes a statement, or a list of statements. -/
def Simulates (jumps? : Option Jumps) (start finish : Point)
    (execution : Nat → State → Completion State) : Prop :=
  ∀ least state, Follows graph machine jumps? finish least
    (fun fuel => graph.walkFrom machine fuel start state) (execution least state)

end Following

section Laws

variable {graph : FlowGraph Leaf Expr} {machine : Machine Leaf Expr State}
variable {jumps? : Option Jumps} {start finish middle last : Point} {least : Nat}
variable {future later : Nat → Progress State}

/-- Control that reaches the end follows a normal completion. -/
theorem Follows.reaches {state : State}
    (onward : Leads future fun fuel => graph.walkFrom machine fuel finish state) :
    Follows graph machine jumps? finish least future (.normal state) := onward

/-- Control that ends follows an ending. -/
theorem Follows.ends {ending : Ending} {state : State}
    (onward : Leads future fun _ => .ended ending state) :
    Follows graph machine jumps? finish least future (.ended ending state) := onward

/-- Control that is back at the head follows a round that goes on. -/
theorem FollowsRound.returns {head : BlockId} {state : State}
    (onward : Leads future fun fuel => graph.walk machine fuel head state) :
    FollowsRound graph machine jumps? finish least head future (.again state) := onward

theorem FollowsRound.ends {head : BlockId} {completion : Completion State}
    (follows : Follows graph machine jumps? finish least future completion) :
    FollowsRound graph machine jumps? finish least head future (.finished completion) := follows

/-- A block is left behind when the walk stands at its start. -/
theorem leads_atStart (block : BlockId) (state : State) :
    Leads (fun fuel => graph.walk machine fuel block state)
      fun fuel => graph.walkFrom machine fuel (.atStart block) state :=
  ⟨1, fun fuel => graph.walk_succ fuel block state⟩

/-- An edge leads to the start of its target. -/
theorem leads_goto {target : BlockId} (here : graph.LeavesBy start (.goto target))
    (state : State) :
    Leads (fun fuel => graph.walkFrom machine fuel start state)
      fun fuel => graph.walk machine fuel target state :=
  ⟨0, fun fuel => graph.walkFrom_leave here fuel state⟩

/-- What follows later follows from before. -/
theorem Follows.after {completion : Completion State} (onward : Leads future later)
    (follows : Follows graph machine jumps? finish least later completion) :
    Follows graph machine jumps? finish least future completion := by
  cases completion with
  | normal state => exact onward.trans follows
  | broke state => exact fun jumps equal => onward.trans (follows jumps equal)
  | continued state => exact fun jumps equal => onward.trans (follows jumps equal)
  | ended ending state => exact onward.trans follows
  | unfinished state =>
      obtain ⟨delay, reaches⟩ := onward
      obtain ⟨fuel, enough, running⟩ := follows
      exact ⟨fuel + delay, by omega, by rw [reaches, running]⟩

theorem FollowsRound.after {head : BlockId} {round : Round State} (onward : Leads future later)
    (follows : FollowsRound graph machine jumps? finish least head later round) :
    FollowsRound graph machine jumps? finish least head future round := by
  cases round with
  | again state => exact onward.trans follows
  | finished completion => exact Follows.after onward follows

theorem Follows.least_le {fewer : Nat} {completion : Completion State} (below : fewer ≤ least)
    (follows : Follows graph machine jumps? finish least future completion) :
    Follows graph machine jumps? finish fewer future completion := by
  cases completion with
  | unfinished state =>
      obtain ⟨fuel, enough, running⟩ := follows
      exact ⟨fuel, by omega, running⟩
  | _ => exact follows

/-- A walk that starts one block earlier comes through a state one block later. -/
theorem Follows.earlier {completion : Completion State} (onward : ∃ delay, ∀ fuel,
      future (fuel + (delay + 1)) = later fuel)
    (follows : Follows graph machine jumps? finish least later completion) :
    Follows graph machine jumps? finish (least + 1) future completion := by
  obtain ⟨delay, reaches⟩ := onward
  cases completion with
  | unfinished state =>
      obtain ⟨fuel, enough, running⟩ := follows
      exact ⟨fuel + (delay + 1), by omega, by rw [reaches, running]⟩
  | normal state => exact Leads.trans ⟨delay + 1, reaches⟩ follows
  | broke state =>
      exact fun jumps equal => Leads.trans ⟨delay + 1, reaches⟩ (follows jumps equal)
  | continued state =>
      exact fun jumps equal => Leads.trans ⟨delay + 1, reaches⟩ (follows jumps equal)
  | ended ending state => exact Leads.trans ⟨delay + 1, reaches⟩ follows

/-- What follows two parts in order follows them together. -/
theorem Follows.andThen {completion : Completion State} {next : State → Completion State}
    (first : Follows graph machine jumps? middle least future completion)
    (second : ∀ state, Follows graph machine jumps? finish least
      (fun fuel => graph.walkFrom machine fuel middle state) (next state)) :
    Follows graph machine jumps? finish least future (completion.andThen next) := by
  cases completion with
  | normal state => exact Follows.after first (second state)
  | _ => exact first

/-- Graphs that simulate two statements in order simulate them together. -/
theorem Simulates.seq {first second : Nat → State → Completion State}
    (before : Simulates graph machine jumps? start middle first)
    (behind : Simulates graph machine jumps? middle finish second) :
    Simulates graph machine jumps? start finish
      fun fuel state => (first fuel state).andThen (second fuel) := fun least state =>
  (before least state).andThen (behind least)

/-- The body of a loop lies in front of `last`, and its jumps lead to `check` and `after`. The rest
of the round follows from both ways to end the body. -/
theorem Follows.afterBody {check after head : BlockId} {completion : Completion State}
    {next : State → Round State}
    (body : Follows graph machine (some ⟨check, after⟩) last least future completion)
    (atLast : ∀ state, FollowsRound graph machine jumps? (.atStart after) least head
      (fun fuel => graph.walkFrom machine fuel last state) (next state))
    (atCheck : ∀ state, FollowsRound graph machine jumps? (.atStart after) least head
      (fun fuel => graph.walk machine fuel check state) (next state)) :
    FollowsRound graph machine jumps? (.atStart after) least head future
      (completion.afterBody next) := by
  cases completion with
  | normal state => exact FollowsRound.after body (atLast state)
  | continued state => exact FollowsRound.after (body _ rfl) (atCheck state)
  | broke state => exact (body _ rfl).trans (leads_atStart after state)
  | ended ending state => exact body
  | unfinished state => exact body

/-- A loop runs through its head once in every round. -/
theorem follows_rounds {round : State → Round State} {head : BlockId} {count : Nat}
    (bounded : count ≤ least)
    (each : ∀ state, FollowsRound graph machine jumps? finish least head
      (fun fuel => graph.walk machine (fuel + 1) head state) (round state)) (state : State) :
    Follows graph machine jumps? finish count
      (fun fuel => graph.walk machine fuel head state) (rounds round count state) := by
  induction count generalizing state with
  | zero => exact ⟨0, Nat.le_refl 0, rfl⟩
  | succ count ih =>
      rw [rounds]
      have this := each state
      cases goes : round state with
      | again next =>
          rw [goes] at this
          obtain ⟨delay, reaches⟩ := this
          exact Follows.earlier ⟨delay, reaches⟩ (ih (by omega) next)
      | finished completion =>
          rw [goes] at this
          exact Follows.after ⟨1, fun fuel => rfl⟩ (Follows.least_le bounded this)

end Laws
end NullFlow
