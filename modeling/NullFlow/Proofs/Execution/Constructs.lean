import NullFlow.Proofs.Execution.Simulation
/-!
The code of every kind of statement executes the statement, if the code of its parts does.
-/

namespace NullFlow

section Constructs

variable {Leaf Expr State : Type} {graph : FlowGraph Leaf Expr}
variable {machine : Machine Leaf Expr State} {jumps? : Option Jumps} {start finish : Point}

/-- A point where nothing is done simulates the empty statement. -/
theorem simulates_empty : Simulates graph machine jumps? start start
    fun _ state => .normal state := fun _ _ => Follows.reaches (Leads.refl _)

/-- A step simulates its leaf. -/
theorem simulates_simple {leaf : Leaf} (here : graph.StepAt start (.simple leaf)) :
    Simulates graph machine jumps? start start.next
      fun fuel => machine.execute fuel (.simple leaf) := by
  intro least state
  simp only [Machine.execute, FlowGraph.walkFrom_step here, Machine.step]
  cases machine.simple leaf state with
  | error stopped => exact Follows.ends (Leads.refl _)
  | ok next => exact Follows.reaches (Leads.refl _)

/-- A branch evaluates the condition and leads to one of two blocks. -/
theorem leads_branch {condition : Expr} {whenTrue whenFalse : BlockId}
    (here : graph.LeavesBy start (.branch condition whenTrue whenFalse)) (state : State) :
    Leads (fun fuel => graph.walkFrom machine fuel start state) fun fuel =>
      machine.test condition state (.ended .stopped) fun holds state =>
        graph.walk machine fuel (if holds then whenTrue else whenFalse) state := by
  refine ⟨0, fun fuel => ?_⟩
  simp only [Nat.add_zero, FlowGraph.walkFrom_leave here, Machine.leave, Machine.test]
  rcases machine.decide condition state with stopped | ⟨holds, next⟩
  · rfl
  · cases holds <;> rfl

/-- What follows a branch follows from what follows its two outcomes. -/
theorem Follows.branch {condition : Expr} {whenTrue whenFalse : BlockId} {least : Nat}
    {next : Bool → State → Completion State}
    (here : graph.LeavesBy start (.branch condition whenTrue whenFalse))
    (each : ∀ holds state, Follows graph machine jumps? finish least
      (fun fuel => graph.walk machine fuel (if holds then whenTrue else whenFalse) state)
      (next holds state)) (state : State) :
    Follows graph machine jumps? finish least
      (fun fuel => graph.walkFrom machine fuel start state)
      (machine.test condition state (.ended .stopped) next) := by
  refine Follows.after (leads_branch here state) ?_
  unfold Machine.test
  rcases machine.decide condition state with stopped | ⟨holds, onward⟩
  · exact Follows.ends (Leads.refl _)
  · exact each holds onward

/-- A loop ends at the block `after` when its condition fails. -/
theorem followsRound_guard {condition : Expr} {inside after head : BlockId} {least : Nat}
    {next : State → Round State}
    (here : graph.LeavesBy start (.branch condition inside after))
    (holds : ∀ state, FollowsRound graph machine jumps? (.atStart after) least head
      (fun fuel => graph.walk machine fuel inside state) (next state)) (state : State) :
    FollowsRound graph machine jumps? (.atStart after) least head
      (fun fuel => graph.walkFrom machine fuel start state)
      (machine.guard condition next state) := by
  refine FollowsRound.after (leads_branch here state) ?_
  unfold Machine.guard Machine.test
  rcases machine.decide condition state with stopped | ⟨outcome, onward⟩
  · exact FollowsRound.ends (Follows.ends (Leads.refl _))
  · cases outcome with
    | false => exact FollowsRound.ends (Follows.reaches (leads_atStart after onward))
    | true => exact holds onward

/-- A block whose code ends with a jump to another block. -/
theorem Simulates.fromBlock {target : BlockId} {last : Point}
    {execution : Nat → State → Completion State} {block : BlockId}
    (code : Simulates graph machine jumps? (.atStart block) last execution)
    (leaves : graph.LeavesBy last (.goto target)) (least : Nat) (state : State) :
    Follows graph machine jumps? (.atStart target) least
      (fun fuel => graph.walk machine fuel block state) (execution least state) := by
  have follows := Follows.after (leads_atStart block state) (code least state)
  cases reached : execution least state with
  | normal next =>
      rw [reached] at follows
      have arrives : Leads (fun fuel => graph.walk machine fuel block state)
          fun fuel => graph.walkFrom machine fuel last next := follows
      exact Follows.reaches
        ((arrives.trans (leads_goto leaves next)).trans (leads_atStart target next))
  | _ =>
      rw [reached] at follows
      exact follows

/-- A branch past its block simulates an if without an else. -/
theorem simulates_if {condition : Expr} {thenBranch : Stmt Leaf Expr} {inside join : BlockId}
    {last : Point} (decides : graph.LeavesBy start (.branch condition inside join))
    (taken : Simulates graph machine jumps? (.atStart inside) last
      fun fuel => machine.execute fuel thenBranch)
    (leaves : graph.LeavesBy last (.goto join)) :
    Simulates graph machine jumps? start (.atStart join)
      fun fuel => machine.execute fuel (.ifElse condition thenBranch none) := by
  intro least state
  simp only [Machine.execute]
  refine Follows.branch decides (fun holds next => ?_) state
  cases holds with
  | false => exact leads_atStart join next
  | true => exact taken.fromBlock leaves least next

/-- A branch with two blocks that meet again simulates an if. -/
theorem simulates_ifElse {condition : Expr} {thenBranch elseBranch : Stmt Leaf Expr}
    {whenTrue whenFalse join : BlockId} {lastTrue lastFalse : Point}
    (decides : graph.LeavesBy start (.branch condition whenTrue whenFalse))
    (taken : Simulates graph machine jumps? (.atStart whenTrue) lastTrue
      fun fuel => machine.execute fuel thenBranch)
    (leavesTaken : graph.LeavesBy lastTrue (.goto join))
    (otherwise : Simulates graph machine jumps? (.atStart whenFalse) lastFalse
      fun fuel => machine.execute fuel elseBranch)
    (leavesOther : graph.LeavesBy lastFalse (.goto join)) :
    Simulates graph machine jumps? start (.atStart join)
      fun fuel => machine.execute fuel (.ifElse condition thenBranch (some elseBranch)) := by
  intro least state
  simp only [Machine.execute]
  refine Follows.branch decides (fun holds next => ?_) state
  cases holds with
  | false => exact otherwise.fromBlock leavesOther least next
  | true => exact taken.fromBlock leavesTaken least next

/-- A loop whose rounds start at the block `head`. -/
theorem simulates_loop {round : Nat → State → Round State} {head : BlockId}
    (enters : graph.LeavesBy start (.goto head))
    (each : ∀ least state, FollowsRound graph machine jumps? finish least head
      (fun fuel => graph.walkFrom machine fuel (.atStart head) state) (round least state)) :
    Simulates graph machine jumps? start finish
      fun fuel state => rounds (round fuel) fuel state := by
  intro least state
  refine Follows.after (leads_goto enters state) ?_
  refine follows_rounds (Nat.le_refl least) (fun next => ?_) state
  simp only [FlowGraph.walk_succ]
  exact each least next

/-- A loop that tests its condition at the block `head`. The rest of a round follows from both ways
to end the body. -/
theorem simulates_headed (condition? : Option Expr) {body : Nat → State → Completion State}
    {next : State → Round State} {head inside check after : BlockId} {last : Point}
    (enters : graph.LeavesBy start (.goto head))
    (decides : graph.LeavesBy (.atStart head)
      (condition?.elim (.goto inside) fun condition => .branch condition inside after))
    (code : Simulates graph machine (some ⟨check, after⟩) (.atStart inside) last body)
    (leaves : graph.LeavesBy last (.goto check))
    (ends : ∀ least state, FollowsRound graph machine jumps? (.atStart after) least head
      (fun fuel => graph.walk machine fuel check state) (next state)) :
    Simulates graph machine jumps? start (.atStart after)
      fun fuel state => rounds (machine.roundFromHead condition? (body fuel) next) fuel state := by
  refine simulates_loop enters fun least state => ?_
  have round : ∀ state, FollowsRound graph machine jumps? (.atStart after) least head
      (fun fuel => graph.walk machine fuel inside state)
      ((body least state).afterBody next) := by
    intro state
    have follows := Follows.after (leads_atStart inside state) (code least state)
    exact follows.afterBody
      (fun onward => FollowsRound.after (leads_goto leaves onward) (ends least onward))
      (ends least)
  unfold Machine.roundFromHead
  cases condition? with
  | none => exact FollowsRound.after (leads_goto decides state) (round state)
  | some condition => exact followsRound_guard decides round state

/-- A branch at the head of a cycle simulates a while loop. -/
theorem simulates_while {condition : Expr} {body : Stmt Leaf Expr} {head inside after : BlockId}
    {last : Point} (enters : graph.LeavesBy start (.goto head))
    (decides : graph.LeavesBy (.atStart head) (.branch condition inside after))
    (code : Simulates graph machine (some ⟨head, after⟩) (.atStart inside) last
      fun fuel => machine.execute fuel body)
    (repeats : graph.LeavesBy last (.goto head)) :
    Simulates graph machine jumps? start (.atStart after)
      fun fuel => machine.execute fuel (.whileLoop condition body) := by
  simp only [Machine.execute]
  exact simulates_headed (some condition) enters decides code repeats
    fun _ _ => FollowsRound.returns (Leads.refl _)

/-- A branch at the end of a cycle simulates a loop with its test at the end. -/
theorem simulates_doWhile {condition : Expr} {body : Stmt Leaf Expr}
    {inside check after : BlockId} {last : Point}
    (enters : graph.LeavesBy start (.goto inside))
    (code : Simulates graph machine (some ⟨check, after⟩) (.atStart inside) last
      fun fuel => machine.execute fuel body)
    (leaves : graph.LeavesBy last (.goto check))
    (decides : graph.LeavesBy (.atStart check) (.branch condition inside after)) :
    Simulates graph machine jumps? start (.atStart after)
      fun fuel => machine.execute fuel (.doWhile body condition) := by
  simp only [Machine.execute]
  refine simulates_loop enters fun least state => ?_
  have atCheck : ∀ next, FollowsRound graph machine jumps? (.atStart after) least inside
      (fun fuel => graph.walk machine fuel check next)
      (machine.guard condition .again next) := by
    intro next
    refine FollowsRound.after (leads_atStart check next) ?_
    exact followsRound_guard decides (fun _ => FollowsRound.returns (Leads.refl _)) next
  exact (code least state).afterBody
    (fun next => FollowsRound.after (leads_goto leaves next) (atCheck next)) atCheck

/-- The block of the updates ends a round of the loop. -/
theorem followsRound_updates {updates : List Expr} {step head : BlockId} {least : Nat}
    (code : graph.blocks[step]? = some ⟨updates.map .update, .goto head⟩) (state : State) :
    FollowsRound graph machine jumps? finish least head
      (fun fuel => graph.walk machine fuel step state) (machine.endRound updates state) := by
  unfold Machine.endRound
  cases outcome : machine.updates updates state with
  | error stopped =>
      have goes (fuel : Nat) : graph.walk machine (fuel + 1) step state =
          .ended .stopped stopped := by
        rw [FlowGraph.walk, code]
        simp only [Machine.pass, Machine.steps_updates, outcome]
      refine FollowsRound.after ⟨1, goes⟩ ?_
      exact FollowsRound.ends (Follows.ends (Leads.refl _))
  | ok next =>
      have goes (fuel : Nat) : graph.walk machine (fuel + 1) step state =
          graph.walk machine fuel head next := by
        rw [FlowGraph.walk, code]
        simp only [Machine.pass, Machine.steps_updates, outcome]
        rfl
      refine FollowsRound.after ⟨1, goes⟩ ?_
      exact FollowsRound.returns (Leads.refl _)

/-- The targets of a switch whose arms lie in consecutive blocks. -/
def switchTargets (first after : BlockId) (patterns : List (Option Pattern)) : List SwitchTarget :=
  (patterns.zipIdx.map fun (pattern?, index) => ⟨pattern?, first + index⟩) ++
    if patterns.all Option.isSome then [⟨none, after⟩] else []

/-- The ways out of a switch have its patterns in order. -/
theorem switchTargets_patterns (first after : BlockId) (patterns : List (Option Pattern)) :
    (switchTargets first after patterns).map SwitchTarget.pattern? = switchWays patterns := by
  have listed : (patterns.zipIdx.map fun (pattern?, index) =>
      (⟨pattern?, first + index⟩ : SwitchTarget)).map SwitchTarget.pattern? = patterns := by
    simp only [List.map_map]
    change patterns.zipIdx.map Prod.fst = patterns
    exact List.zipIdx_map_fst 0 patterns
  rw [switchTargets, switchWays, List.map_append, listed]
  split <;> rfl

/-- The way of every arm goes to the block of the arm. -/
theorem switchTargets_arm (first after : BlockId) {patterns : List (Option Pattern)} {way : Nat}
    (isArm : way < patterns.length) :
    ∃ pattern?, (switchTargets first after patterns)[way]? = some ⟨pattern?, first + way⟩ := by
  refine ⟨patterns[way], ?_⟩
  rw [switchTargets, List.getElem?_append_left (by simpa using isArm)]
  simp [isArm]

/-- Only the way that falls out lies behind the arms. -/
theorem switchTargets_otherwise (first after : BlockId) {patterns : List (Option Pattern)}
    {way : Nat} (noArm : patterns.length ≤ way)
    (isWay : way < (switchTargets first after patterns).length) :
    (switchTargets first after patterns)[way]? = some ⟨none, after⟩ := by
  rw [switchTargets] at isWay ⊢
  rw [List.getElem?_append_right (by simpa using noArm)]
  by_cases every : patterns.all Option.isSome = true
  · simp only [every, if_true, List.length_append, List.length_map, List.length_zipIdx,
      List.length_singleton] at isWay ⊢
    have last : way - patterns.length = 0 := by omega
    rw [last]
    rfl
  · simp only [every, List.length_append, List.length_map, List.length_zipIdx] at isWay
    simp at isWay
    omega

/-- The arms of a switch lie in consecutive blocks and end with a jump behind the switch. -/
def SimulatesArms (graph : FlowGraph Leaf Expr) (machine : Machine Leaf Expr State)
    (jumps : Jumps) (first : BlockId) (arms : List (Arm (Stmt Leaf Expr))) : Prop :=
  ∀ way arm, arms[way]? = some arm → ∃ last,
    Simulates graph machine (some jumps) (.atStart (first + way)) last
      (fun fuel => machine.executeAll fuel arm.body) ∧
    graph.LeavesBy last (.goto jumps.breakTo)

theorem executeArm_some {fuel way : Nat} {arms : List (Arm (Stmt Leaf Expr))}
    {arm : Arm (Stmt Leaf Expr)} (found : arms[way]? = some arm) (state : State) :
    machine.executeArm fuel arms way state = machine.executeAll fuel arm.body state := by
  induction arms generalizing way with
  | nil => simp at found
  | cons head rest ih =>
      cases way with
      | zero =>
          obtain rfl : head = arm := by simpa using found
          rw [Machine.executeArm]
      | succ way => exact ih (by simpa using found)

theorem executeArm_none {fuel way : Nat} {arms : List (Arm (Stmt Leaf Expr))}
    (beyond : arms.length ≤ way) (state : State) :
    machine.executeArm fuel arms way state = .normal state := by
  induction arms generalizing way with
  | nil => rw [Machine.executeArm]
  | cons head rest ih =>
      cases way with
      | zero => simp at beyond
      | succ way => exact ih (by simpa using beyond)

/-- A break leaves the switch, and a continue leaves the loop around the switch. -/
theorem Follows.leaveSwitch {jumps : Jumps} {least : Nat} {future : Nat → Progress State}
    {completion : Completion State}
    (agrees : ∀ outer, jumps? = some outer → jumps.continueTo = outer.continueTo)
    (follows : Follows graph machine (some jumps) (.atStart jumps.breakTo) least future
      completion) :
    Follows graph machine jumps? (.atStart jumps.breakTo) least future completion.leaveSwitch := by
  cases completion with
  | broke state => exact (follows _ rfl).trans (leads_atStart jumps.breakTo state)
  | continued state => exact fun outer equal => agrees outer equal ▸ follows _ rfl
  | _ => exact follows

/-- A switch over the blocks of its arms simulates the statement. -/
theorem simulates_switch {scrutinee : Expr} {arms : List (Arm (Stmt Leaf Expr))} (jumps : Jumps)
    {first : BlockId}
    (picks : graph.LeavesBy start (.switch scrutinee
      (switchTargets first jumps.breakTo (arms.map Arm.pattern?))))
    (agrees : ∀ outer, jumps? = some outer → jumps.continueTo = outer.continueTo)
    (code : SimulatesArms graph machine jumps first arms) :
    Simulates graph machine jumps? start (.atStart jumps.breakTo)
      fun fuel => machine.execute fuel (.switch scrutinee arms) := by
  intro least state
  have ways := switchTargets_patterns first jumps.breakTo (arms.map Arm.pattern?)
  have count : (switchTargets first jumps.breakTo (arms.map Arm.pattern?)).length =
      (switchWays (arms.map Arm.pattern?)).length := by rw [← ways, List.length_map]
  have positive := switchWays_positive (arms.map Arm.pattern?)
  simp only [Machine.execute, FlowGraph.walkFrom_leave picks, Machine.leave, ways, count]
  rcases machine.choose scrutinee (switchWays (arms.map Arm.pattern?)) state with
    stopped | ⟨choice, next⟩
  · exact Follows.ends (Leads.refl _)
  · have isWay := Nat.mod_lt choice positive
    simp only
    generalize choice % (switchWays (arms.map Arm.pattern?)).length = way at isWay ⊢
    refine Follows.leaveSwitch agrees ?_
    by_cases isArm : way < arms.length
    · obtain ⟨pattern?, target⟩ := switchTargets_arm first jumps.breakTo
        (show way < (arms.map Arm.pattern?).length by simpa using isArm)
      obtain ⟨last, simulates, leaves⟩ := code way arms[way] (List.getElem?_eq_getElem isArm)
      rw [executeArm_some (List.getElem?_eq_getElem isArm)]
      simp only [target]
      exact simulates.fromBlock leaves least next
    · have target := switchTargets_otherwise first jumps.breakTo
        (show (arms.map Arm.pattern?).length ≤ way by simpa using isArm) (count ▸ isWay)
      rw [executeArm_none (Nat.le_of_not_lt isArm)]
      simp only [target]
      exact Follows.reaches (leads_atStart jumps.breakTo next)

/-- An edge to the end of the loop simulates a break. -/
theorem simulates_break
    (here : ∀ jumps, jumps? = some jumps → graph.LeavesBy start (.goto jumps.breakTo)) :
    Simulates graph machine jumps? start finish
      fun fuel => machine.execute fuel (.breakOut : Stmt Leaf Expr) := by
  intro least state
  simp only [Machine.execute]
  exact fun jumps equal => leads_goto (here jumps equal) state

/-- An edge to the next round simulates a continue. -/
theorem simulates_continue
    (here : ∀ jumps, jumps? = some jumps → graph.LeavesBy start (.goto jumps.continueTo)) :
    Simulates graph machine jumps? start finish
      fun fuel => machine.execute fuel (.continueLoop : Stmt Leaf Expr) := by
  intro least state
  simp only [Machine.execute]
  exact fun jumps equal => leads_goto (here jumps equal) state

/-- A returning block simulates a return. -/
theorem simulates_return {value? : Option Expr} {span : Span}
    (here : graph.LeavesBy start (.returnValue value? span)) :
    Simulates graph machine jumps? start finish
      fun fuel => machine.execute fuel (.returnValue value? span : Stmt Leaf Expr) := by
  intro least state
  simp only [Machine.execute, FlowGraph.walkFrom_leave here, Machine.leave]
  cases machine.answer value? state with
  | error stopped => exact Follows.ends (Leads.refl _)
  | ok next => exact Follows.ends (Leads.refl _)

/-- A throwing block simulates a throw. -/
theorem simulates_throw {value? : Option Expr}
    (here : graph.LeavesBy start (.throwValue value?)) :
    Simulates graph machine jumps? start finish
      fun fuel => machine.execute fuel (.throwValue value? : Stmt Leaf Expr) := by
  intro least state
  simp only [Machine.execute, FlowGraph.walkFrom_leave here, Machine.leave]
  cases machine.raise value? state with
  | error stopped => exact Follows.ends (Leads.refl _)
  | ok next => exact Follows.ends (Leads.refl _)

end Constructs
end NullFlow
