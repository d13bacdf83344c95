import NullFlow.FlowGraph.Basic
/-!
Executions. A machine says what the simple statements and the expressions of a program do to a
state. Statement trees and control-flow graphs are then executed on the same machine.
-/

namespace NullFlow

/-- What the parts of a program do to a state. A part may stop the whole execution, and then yields
the last state as an error. -/
structure Machine (Leaf Expr State : Type) where
  /-- Executes a simple statement. -/
  simple : Leaf → State → Except State State
  /-- Evaluates an update of a loop. -/
  update : Expr → State → Except State State
  /-- Evaluates a condition. -/
  decide : Expr → State → Except State (Bool × State)
  /-- Evaluates the scrutinee of a switch and picks one of the ways out of it. The number of the way
  counts modulo the number of the ways. -/
  choose : Expr → List (Option Pattern) → State → Except State (Nat × State)
  /-- Evaluates what a method returns. -/
  answer : Option Expr → State → Except State State
  /-- Evaluates what a method throws. -/
  raise : Option Expr → State → Except State State

/-- How an execution ends. -/
inductive Ending where
  | returned
  | threw
  /-- Control fell off the end of the code. -/
  | fellOff
  /-- A part of the program stopped the execution. -/
  | stopped
deriving DecidableEq

/-- What an execution has reached when its fuel is spent. -/
inductive Progress (State : Type) where
  | running (state : State)
  | ended (ending : Ending) (state : State)

namespace Progress

/-- The state that the execution has reached. -/
def state {State : Type} : Progress State → State
  | running state => state
  | ended _ state => state

end Progress

/-- The ways out of a switch with arms of the given patterns. If every arm has a pattern, then
control may also fall out. -/
def switchWays (patterns : List (Option Pattern)) : List (Option Pattern) :=
  patterns ++ if patterns.all Option.isSome then [none] else []

/-- There is always some way out of a switch. -/
theorem switchWays_positive (patterns : List (Option Pattern)) :
    0 < (switchWays patterns).length := by
  cases patterns <;> simp [switchWays]

namespace Machine

variable {Leaf Expr State : Type} (machine : Machine Leaf Expr State)

/-- Executes one step of a block. -/
def step : Step Leaf Expr → State → Except State State
  | .simple leaf, state => machine.simple leaf state
  | .update expr, state => machine.update expr state

/-- Executes steps until one of them stops the execution. -/
def steps : List (Step Leaf Expr) → State → Except State State
  | [], state => .ok state
  | step :: rest, state =>
      match machine.step step state with
      | .error state => .error state
      | .ok state => steps rest state

/-- Evaluates expressions as updates of a loop. -/
def updates : List Expr → State → Except State State
  | [], state => .ok state
  | expr :: rest, state =>
      match machine.update expr state with
      | .error state => .error state
      | .ok state => updates rest state

/-- Executes a terminator. Control goes on in a block, or the execution ends. -/
def leave : Terminator Expr → State → Except (Ending × State) (BlockId × State)
  | .goto target, state => .ok (target, state)
  | .branch condition whenTrue whenFalse, state =>
      match machine.decide condition state with
      | .error state => .error (.stopped, state)
      | .ok (true, state) => .ok (whenTrue, state)
      | .ok (false, state) => .ok (whenFalse, state)
  | .switch scrutinee targets, state =>
      match machine.choose scrutinee (targets.map SwitchTarget.pattern?) state with
      | .error state => .error (.stopped, state)
      | .ok (way, state) =>
          match targets[way % targets.length]? with
          | some arm => .ok (arm.target, state)
          | none => .error (.fellOff, state)
  | .returnValue value? _, state =>
      match machine.answer value? state with
      | .error state => .error (.stopped, state)
      | .ok state => .error (.returned, state)
  | .throwValue value?, state =>
      match machine.raise value? state with
      | .error state => .error (.stopped, state)
      | .ok state => .error (.threw, state)
  | .exit, state => .error (.fellOff, state)

/-- The updates of a loop are steps of a block. -/
theorem steps_updates (exprs : List Expr) (state : State) :
    machine.steps (exprs.map .update) state = machine.updates exprs state := by
  induction exprs generalizing state with
  | nil => rfl
  | cons expr rest ih =>
      rw [List.map_cons, steps, updates, step]
      cases machine.update expr state with
      | error stopped => rfl
      | ok next => exact ih next

end Machine
end NullFlow
