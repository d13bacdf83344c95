import NullFlow.Proofs.Analysis.LiveEdges
import NullFlow.Proofs.Execution.Walk
import NullFlow.Proofs.Runtime.Meanings
/-!
The run of a block in the analysis attends the run of the block on a memory. Where control goes on,
the block sends a store along that edge which covers the memory.
-/

namespace NullFlow

variable {layout : Layout} {context : Context}

/-- A declaration declares a local of the layout, and the analysis attends its expressions. -/
def Simple.Sound (layout : Layout) (context : Context) : Simple Expr → Prop :=
  Simple.Over (fun target => layout.coversVariable target = true) (Expr.Sound layout context)

def Step.meaning (context : Context) (step : Step (Simple Expr) Expr) :
    Step (Simple Meaning) Meaning :=
  step.map (foldSimple (Meaning.ofNode context)) (Expr.meaning context)

def Terminator.meaning (context : Context) (terminator : Terminator Expr) : Terminator Meaning :=
  terminator.map (Expr.meaning context)

section Steps

variable {session : Session} {store : Store} {memory : Memory}

theorem evaluate_sound {expr : Expr} (sound : expr.Sound layout context)
    (fits : layout.Fits session.slots) (covers : store.Covers layout session.slots memory) :
    Attends context.method session (Prod.snd <$> (expr.meaning context).value store)
      (memory.effect expr) (Arrives layout session) :=
  Concludes.map (sound.value fits covers) fun _ => .of_yields

/-- The end of a declaration: the value goes to the slot of the local. -/
def writeDeclared (target : Variable) (result : Value × Store) : Analysis Store := do
  let slot ← Analysis.onSlots (SlotTable.intern (.localVar target.id) target.ty.declaredState)
  Analysis.onSlots (result.2.write (some slot) result.1)

/-- What a declaration does with its value. -/
def settleDeclared (context : Context) (target : Variable) (span : Span) (result : Value × Store) :
    Analysis Store := do
  if !result.2.isReachable then return result.2
  if !target.implicit then
    context.checkConversion result.1 target.ty span .assignment
  writeDeclared target result

/-- A declaration evaluates its value and then settles it. -/
theorem declare_eq (target : Variable) (meaning : Meaning) (store : Store) :
    target.declare context meaning store =
      meaning.value store >>= settleDeclared context target meaning.span := rfl

/-- Settling a declared value only adds to what is recorded. -/
theorem settleDeclared_records (target : Variable) (span : Span) (result : Value × Store) :
    Records (settleDeclared context target span result) := by
  have writes : Records (writeDeclared target result) := .bind (.onSlots _) fun _ => .onSlots _
  exact .ite _ (.pure _) (.ite _ (.bind (.checkConversion _ _ _ _ _) fun _ => writes) writes)

/-- The slot of the local is written when the execution stores the value in the local. -/
theorem writeDeclared_sound {target : Variable} (covered : layout.coversVariable target = true)
    {after : Session} {value : Value} {answer : Bool × Memory}
    (yields : Yields layout session after (value, store) answer)
    (flat : value.ty?.all Ty.isFlat = true) :
    Attends context.method after (writeDeclared target (value, store))
      (pure (answer.2.write target.id answer.1)) (Arrives layout session) := by
  obtain ⟨extended, fitsAfter, found, _⟩ := intern_covers covered yields.fits yields.covers
  refine .first (.pure ?_)
  exact .of_yields (write_yields yields flat extended fitsAfter found)

/-- A declaration writes its value to the slot of the local. -/
theorem declare_sound {target : Variable} {value : Expr}
    (covered : layout.coversVariable target = true) (sound : value.Sound layout context)
    (fits : layout.Fits session.slots) (covers : store.Covers layout session.slots memory) :
    Attends context.method session (target.declare context (value.meaning context) store)
      (memory.executeSimple (.declare target (some value))) (Arrives layout session) := by
  rw [declare_eq]
  refine (sound.value_flat fits covers).bind (settleDeclared_records target _)
    fun {after result answer} ⟨yields, flat⟩ => ?_
  have reachable : (!result.2.isReachable) = false := by rw [yields.covers.reachable]; rfl
  rw [settleDeclared, reachable]
  cases target.implicit with
  | true => exact writeDeclared_sound covered yields flat
  | false =>
      refine .silent (.checkConversion _ _ _ _ _) fun same => ?_
      exact writeDeclared_sound covered (yields.silent same) flat

/-- A step of a block only adds to what is recorded. -/
theorem step_records {step : Step (Simple Expr) Expr}
    (sound : step.Over (Simple.Sound layout context) (Expr.Sound layout context)) (store : Store) :
    Records ((step.meaning context).run context store) := by
  match step, sound with
  | .simple (.declare _ none), _ => exact .pure _
  | .simple (.declare target (some _)), sound => 
      exact .bind ((sound.2 _ rfl).orderly.records.value store) (settleDeclared_records target _)
  | .simple (.evaluate _), sound => exact .bind (sound.orderly.records.value store) fun _ => .pure _
  | .update _, sound => exact .bind (sound.orderly.records.value store) fun _ => .pure _

/-- A step of a block keeps the store above the memory, or the run stops at a reported dereference.
-/
theorem step_sound {step : Step (Simple Expr) Expr}
    (sound : step.Over (Simple.Sound layout context) (Expr.Sound layout context))
    (fits : layout.Fits session.slots) (covers : store.Covers layout session.slots memory) :
    Attends context.method session ((step.meaning context).run context store)
      (Memory.machine.step step memory) (Arrives layout session) := by
  match step, sound with
  | .simple (.declare _ none), _ => exact .pure ⟨.refl _, fits, covers⟩
  | .simple (.declare _ (some _)), sound => exact declare_sound sound.1 (sound.2 _ rfl) fits covers
  | .simple (.evaluate _), sound => exact evaluate_sound sound fits covers
  | .update _, sound => exact evaluate_sound sound fits covers

/-- The steps of a block only add to what is recorded. -/
theorem steps_records {steps : List (Step (Simple Expr) Expr)}
    (sound : ∀ step ∈ steps, step.Over (Simple.Sound layout context) (Expr.Sound layout context))
    (store : Store) :
    Records ((steps.map (Step.meaning context)).foldlM (fun store step => step.run context store)
      store) := by
  refine .foldlM (fun step member store => ?_) store
  obtain ⟨source, inSteps, rfl⟩ := List.mem_map.mp member
  exact step_records (sound source inSteps) store

/-- The steps of a block keep the store above the memory, or the run stops at a reported
dereference. -/
theorem steps_sound {steps : List (Step (Simple Expr) Expr)}
    (sound : ∀ step ∈ steps, step.Over (Simple.Sound layout context) (Expr.Sound layout context))
    (fits : layout.Fits session.slots) (covers : store.Covers layout session.slots memory) :
    Attends context.method session
      ((steps.map (Step.meaning context)).foldlM (fun store step => step.run context store) store)
      (Memory.machine.steps steps memory) (Arrives layout session) := by
  induction steps generalizing session store memory with
  | nil => exact .pure ⟨.refl _, fits, covers⟩
  | cons step rest ih =>
      obtain ⟨ofStep, ofRest⟩ := List.forall_mem_cons.mp sound
      have runs : Memory.machine.steps (step :: rest) memory =
          Memory.machine.step step memory >>= Memory.machine.steps rest := by
        rw [Machine.steps]
        cases Memory.machine.step step memory <;> rfl
      rw [runs, List.map_cons, List.foldlM_cons]
      refine (step_sound ofStep fits covers).bind (steps_records ofRest) fun arrives => ?_
      exact (ih ofRest arrives.fits arrives.covers).weaken fun later => later.since arrives.slots

end Steps

section Terminators

variable {session : Session} {store : Store} {memory : Memory}

/-- What the analysis of a block tells of how an execution leaves the block. If a part of the block
stops the execution at a null receiver, then it is reported. If control goes on, then a store that
covers the memory is sent along the edge. -/
def Departs (layout : Layout) (method : String) (after : Session) (outflow : Outflow) :
    Except (Ending × Memory) (BlockId × Memory) → Prop
  | .error (ending, last) => ending = .stopped → after.Reports method last
  | .ok (target, memory) => ∃ store, (target, store) ∈ outflow ∧
      store.Covers layout after.slots memory

/-- What is known in the way out of a switch that the value takes. -/
theorem narrow_covers {before : Session} {result : Value × Store} {answer : Bool × Memory}
    (yields : Yields layout before session result answer) {hasNullArm : Bool}
    {pattern? : Option Pattern} (fitting : wayFits answer.1 hasNullArm pattern? = true) :
    (SwitchTarget.narrow result.1 hasNullArm result.2 pattern?).Covers layout session.slots
      answer.2 := by
  have learn : ∀ {state : FlowState}, (answer.1 = true → state = .maybeNull) →
      (result.2.assign result.1.slot? state).Covers layout session.slots answer.2 :=
    yields.covers.learn yields.fits yields.value.place
  cases pattern? with
  | none =>
      cases hasNullArm with
      | false => exact yields.covers
      | true =>
          refine learn fun null => ?_
          rw [null] at fitting
          cases fitting
  | some pattern =>
      cases pattern with
      | null => exact learn fun _ => rfl
      | type ty =>
          refine learn fun null => ?_
          rw [null] at fitting
          cases fitting

/-- The end of a block only adds to what is recorded. -/
theorem terminator_records {terminator : Terminator Expr}
    (sound : ∀ expr ∈ terminator.exprs, expr.Sound layout context) (store : Store) :
    Records ((terminator.meaning context).run context store) := by
  match terminator with
  | .goto _ => exact .pure _
  | .branch condition _ _ =>
      exact .bind ((sound condition List.mem_cons_self).orderly.records.branches store)
        fun _ => .pure _
  | .switch scrutinee _ =>
      exact .bind ((sound scrutinee List.mem_cons_self).orderly.records.value store) fun _ => .pure _
  | .returnValue none _ => exact .pure _
  | .returnValue (some value) span =>
      change Records (Terminator.run context (.returnValue (some (value.meaning context)) span) store)
      rw [Comparison.run_returnValue]
      exact .bind ((sound value List.mem_cons_self).orderly.records.value store) fun _ =>
        .bind (.recordReturn _ _ _ _) fun _ => .pure _
  | .throwValue none => exact .pure _
  | .throwValue (some value) =>
      exact .bind ((sound value List.mem_cons_self).orderly.records.value store) fun _ => .pure _
  | .exit => exact .pure _

/-- The receiver that stops an evaluation at the end of a block is reported. -/
theorem evaluate_reports {expr : Expr} (sound : expr.Sound layout context)
    (fits : layout.Fits session.slots) (covers : store.Covers layout session.slots memory)
    {next : Value × Store → Analysis Outflow} (records : ∀ result, Records (next result))
    {last : Memory} (stops : memory.effect expr = .error last) :
    (((expr.meaning context).value store >>= next) session).2.Reports context.method last := by
  have attends := evaluate_sound sound fits covers
  rw [stops] at attends
  exact Session.Reports.later attends (records _ _)

/-- The arm that is taken has a store which covers the memory. -/
theorem arm_departs {before after : Session} {result : Value × Store} {answer : Bool × Memory}
    (yields : Yields layout before after result answer) {targets : List SwitchTarget} {way : Nat}
    {later : Memory} (same : later.isNull = answer.2.isNull)
    (fitting : ∃ pattern?, (targets.map SwitchTarget.pattern?)[way]? = some pattern? ∧
      wayFits answer.1 ((targets.map SwitchTarget.pattern?).any fun way => way.any Pattern.isNull)
        pattern? = true) :
    Departs layout context.method after
      (targets.map fun arm => (arm.target, SwitchTarget.narrow result.1
        (targets.any fun arm => arm.pattern?.any Pattern.isNull) result.2 arm.pattern?))
      (match targets[way % targets.length]? with
        | some arm => .ok (arm.target, later)
        | none => .error (.fellOff, later)) := by
  obtain ⟨pattern?, isWay, fits⟩ := fitting
  rw [List.getElem?_map] at isWay
  obtain ⟨arm, isArm, rfl⟩ := Option.map_eq_some_iff.mp isWay
  have inside : way < targets.length := (List.getElem?_eq_some_iff.mp isArm).1
  rw [Nat.mod_eq_of_lt inside, isArm]
  rw [List.any_map] at fits
  exact ⟨_, List.mem_map_of_mem (List.mem_of_getElem? isArm), (narrow_covers yields fits).frame same⟩

/-- Whichever arm a switch takes, the store sent there is above the memory. -/
theorem switch_departs {scrutinee : Expr} (sound : scrutinee.Sound layout context)
    (targets : List SwitchTarget) (fits : layout.Fits session.slots)
    (covers : store.Covers layout session.slots memory) :
    Departs layout context.method
      (Terminator.run context (.switch (scrutinee.meaning context) targets) store session).2
      (Terminator.run context (.switch (scrutinee.meaning context) targets) store session).1
      (Memory.machine.leave (.switch scrutinee targets) memory) := by
  have attends := sound.value fits covers
  have chooses : Memory.machine.choose scrutinee (targets.map SwitchTarget.pattern?) memory =
      scrutinee.behaviour.value memory >>= fun answer =>
        answer.2.pickWay answer.1 (targets.map SwitchTarget.pattern?) := rfl
  rw [Machine.leave, chooses]
  cases evaluated : scrutinee.behaviour.value memory with
  | error last =>
      rw [evaluated] at attends
      exact fun _ => attends
  | ok answer =>
      rw [evaluated] at attends
      have picks := answer.2.pickWay_fits answer.1 (targets.map SwitchTarget.pattern?)
      rw [show (Except.ok answer >>= fun answer => answer.2.pickWay answer.1
          (targets.map SwitchTarget.pattern?)) = answer.2.pickWay answer.1
          (targets.map SwitchTarget.pattern?) from rfl]
      cases picked : answer.2.pickWay answer.1 (targets.map SwitchTarget.pattern?) with
      | error last =>
          rw [picked] at picks
          exact fun _ => Session.reports_none _ _ picks
      | ok outcome =>
          obtain ⟨way, later⟩ := outcome
          rw [picked] at picks
          exact arm_departs attends picks.1 picks.2

/-- Along the edge that the run takes, the block sends a store above the memory. -/
theorem terminator_departs {terminator : Terminator Expr}
    (sound : ∀ expr ∈ terminator.exprs, expr.Sound layout context)
    (fits : layout.Fits session.slots) (covers : store.Covers layout session.slots memory) :
    Departs layout context.method ((terminator.meaning context).run context store session).2
      ((terminator.meaning context).run context store session).1
      (Memory.machine.leave terminator memory) := by
  match terminator with
  | .goto target => exact ⟨store, List.mem_singleton_self _, covers⟩
  | .branch condition whenTrue whenFalse =>
      have attends : Attends context.method session ((condition.meaning context).branches store)
          (Memory.machine.decide condition memory) (Decides layout session) :=
        (sound condition List.mem_cons_self).branches fits covers
      rw [Machine.leave]
      cases decided : Memory.machine.decide condition memory with
      | error last =>
          rw [decided] at attends
          exact fun _ => attends
      | ok answer =>
          rw [decided] at attends
          have taken := Decides.covers attends
          obtain ⟨holds, later⟩ := answer
          cases holds with
          | true => exact ⟨_, List.mem_cons_self, taken⟩
          | false => exact ⟨_, List.mem_cons_of_mem _ List.mem_cons_self, taken⟩
  | .switch scrutinee targets =>
      exact switch_departs (sound scrutinee List.mem_cons_self) targets fits covers
  | .returnValue none _ =>
      intro never
      cases never
  | .returnValue (some value) span =>
      have runs : Terminator.run context (.returnValue (some (value.meaning context)) span) store = _ :=
        Comparison.run_returnValue _ _ _
      change Departs _ _
        (Terminator.run context (.returnValue (some (value.meaning context)) span) store session).2
        (Terminator.run context (.returnValue (some (value.meaning context)) span) store session).1 _
      rw [runs, Machine.leave]
      cases answered : Memory.machine.answer (some value) memory with
      | error last =>
          exact fun _ => evaluate_reports (sound value List.mem_cons_self) fits covers
            (fun _ => .bind (.recordReturn _ _ _ _) fun _ => .pure _) answered
      | ok later =>
          intro never
          cases never
  | .throwValue none =>
      intro never
      cases never
  | .throwValue (some value) =>
      rw [Machine.leave]
      cases raised : Memory.machine.raise (some value) memory with
      | error last =>
          exact fun _ => evaluate_reports (sound value List.mem_cons_self) fits covers
            (fun _ => .pure _) raised
      | ok later =>
          intro never
          cases never
  | .exit =>
      intro never
      cases never

end Terminators

section Transfers

variable {block : Block (Simple Expr) Expr}
  (sound : block.Over (Simple.Sound layout context) (Expr.Sound layout context))
include sound

/-- A whole block only adds to what is recorded. -/
theorem transfer_records (store : Store) :
    Records ((block.meaning context).transfer context store) :=
  .bind (steps_records sound.steps store) fun _ => terminator_records sound.terminator _

/-- The run of a block attends the execution of the block. -/
theorem transfer_departs {session : Session} {store : Store} {memory : Memory}
    (fits : layout.Fits session.slots) (covers : store.Covers layout session.slots memory) :
    Departs layout context.method ((block.meaning context).transfer context store session).2
      ((block.meaning context).transfer context store session).1
      (Memory.machine.pass block.steps block.terminator memory) := by
  have attends := steps_sound sound.steps fits covers
  rw [Machine.pass]
  cases ran : Memory.machine.steps block.steps memory with
  | error last =>
      rw [ran] at attends
      exact fun _ => Session.Reports.later attends (terminator_records sound.terminator _ _)
  | ok later =>
      rw [ran] at attends
      exact terminator_departs sound.terminator (Arrives.fits attends) (Arrives.covers attends)

end Transfers

end NullFlow
