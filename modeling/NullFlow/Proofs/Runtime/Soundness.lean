import NullFlow.Proofs.Runtime.Cover
import NullFlow.Proofs.Runtime.Behaviour
import NullFlow.Proofs.Runtime.Records
/-!
Sound meanings. The analysis of an expression attends its evaluation: when the evaluation comes to
an answer, the analysis has a result that covers the answer, and when a null receiver stops the
evaluation, the analysis has reported the receiver.
-/

namespace NullFlow

variable {Result Other Answer More : Type} {layout : Layout} {method : String}

/-- The result of the action covers the answer of the execution. If a null receiver stops the
execution, the action reports it. -/
def Attends (method : String) (session : Session) (action : Analysis Result)
    (outcome : Except Memory Answer) (kind : Session → Result → Answer → Prop) : Prop :=
  Concludes outcome (fun last => (action session).2.Reports method last) fun answer =>
    kind (action session).2 (action session).1 answer

namespace Attends

variable {session : Session} {action : Analysis Result} {outcome : Except Memory Answer}
  {kind weaker : Session → Result → Answer → Prop} {other : Session → Other → More → Prop}
  {next : Result → Analysis Other}

theorem pure {result : Result} {answer : Answer} (holds : kind session result answer) :
    Attends method session (Pure.pure result) (Pure.pure answer) kind := holds

/-- No null receiver stops the execution. -/
theorem stop {last : Memory} (notNull : last.nullReceiver? = none) :
    Attends method session action (throw last) kind :=
  Session.reports_none method (action session).2 notNull

/-- The execution goes on as the action does. -/
theorem bind {onward : Answer → Except Memory More}
    (early : Attends method session action outcome kind)
    (records : ∀ result, Records (next result))
    (late : ∀ {after result answer}, kind after result answer →
      Attends method after (next result) (onward answer) other) :
    Attends method session (action >>= next) (outcome >>= onward) other :=
  Concludes.bind early (fun _ reports => reports.later (records _ _)) fun _ holds => late holds

/-- The action goes on when the execution has come to its answer. -/
theorem finish {other : Session → Other → Answer → Prop}
    (early : Attends method session action outcome kind)
    (records : ∀ result, Records (next result))
    (late : ∀ {after result answer}, kind after result answer →
      Attends method after (next result) (Pure.pure answer) other) :
    Attends method session (action >>= next) outcome other := by
  cases outcome with
  | error last => exact early.later (records _ _)
  | ok answer => exact late early

/-- The action does something that has no counterpart in the execution. -/
theorem first {outcome : Except Memory More}
    (late : Attends method (action session).2 (next (action session).1) outcome other) :
    Attends method session (action >>= next) outcome other := late

/-- The action does something that changes no slots. -/
theorem silent {outcome : Except Memory More} (isSilent : Comparison.Silent action)
    (late : ∀ {after : Session}, after.slots = session.slots →
      Attends method after (next (action session).1) outcome other) :
    Attends method session (action >>= next) outcome other := late (isSilent session).1

/-- What holds where both arrive may be weakened. -/
theorem weaken (attends : Attends method session action outcome kind)
    (holds : ∀ {after result answer}, kind after result answer → weaker after result answer) :
    Attends method session action outcome weaker :=
  Concludes.weaken attends (fun _ => id) fun _ => holds

/-- Something is known of the result whatever the execution does. -/
theorem noting {fact : Session → Result → Prop}
    (attends : Attends method session action outcome kind)
    (noted : fact (action session).2 (action session).1) :
    Attends method session action outcome fun after result answer =>
      kind after result answer ∧ fact after result :=
  Concludes.weaken attends (fun _ => id) fun _ holds => ⟨holds, noted⟩

/-- Something is known of the answer whatever the action does. -/
theorem knowing {fact : Answer → Prop} (attends : Attends method session action outcome kind)
    (known : Concludes outcome (fun _ => True) fact) :
    Attends method session action outcome fun after result answer =>
      kind after result answer ∧ fact answer := by
  cases outcome with
  | error last => exact attends
  | ok answer => exact ⟨attends, known⟩

end Attends

/-- The store of one of the two outcomes. -/
def Branches.taken (branches : Branches) (holds : Bool) : Store :=
  if holds then branches.whenTrue else branches.whenFalse

/-- The analysis has come to a value and a store that cover the answer of an evaluation. -/
structure Yields (layout : Layout) (before after : Session) (result : Value × Store)
    (answer : Bool × Memory) : Prop where
  slots : before.slots.Extends after.slots
  fits : layout.Fits after.slots
  covers : result.2.Covers layout after.slots answer.2
  value : result.1.Covers after.slots answer.1 answer.2

/-- Only the slots of the session matter. -/
theorem Yields.silent {before after later : Session} {result : Value × Store}
    {answer : Bool × Memory} (yields : Yields layout before after result answer)
    (same : later.slots = after.slots) : Yields layout before later result answer :=
  ⟨same ▸ yields.slots, same ▸ yields.fits, same ▸ yields.covers, same ▸ yields.value⟩

/-- The analysis has come to two stores, of which one covers the outcome of a condition. -/
structure Decides (layout : Layout) (before after : Session) (branches : Branches)
    (answer : Bool × Memory) : Prop where
  slots : before.slots.Extends after.slots
  fits : layout.Fits after.slots
  within : ∀ holds, (branches.taken holds).Within after.slots
  covers : (branches.taken answer.1).Covers layout after.slots answer.2

/-- Two outcomes of which the same is known. -/
theorem Decides.same {before after : Session} {store : Store} {answer : Bool × Memory}
    (slots : before.slots.Extends after.slots) (fits : layout.Fits after.slots)
    (covers : store.Covers layout after.slots answer.2) :
    Decides layout before after ⟨store, store⟩ answer := by
  have taken : ∀ holds, (Branches.mk store store).taken holds = store := by
    intro holds
    cases holds <;> rfl
  refine ⟨slots, fits, fun holds => ?_, ?_⟩
  · rw [taken]
    exact covers.within
  · rw [taken]
    exact covers

def SoundValue (layout : Layout) (method : String) (rule : Store → Analysis (Value × Store))
    (evaluation : Evaluation) : Prop :=
  ∀ ⦃session : Session⦄ ⦃store : Store⦄ ⦃memory : Memory⦄, layout.Fits session.slots →
    store.Covers layout session.slots memory →
    Attends method session (rule store) (evaluation memory) (Yields layout session)

def SoundBranches (layout : Layout) (method : String) (rule : Store → Analysis Branches)
    (evaluation : Evaluation) : Prop :=
  ∀ ⦃session : Session⦄ ⦃store : Store⦄ ⦃memory : Memory⦄, layout.Fits session.slots →
    store.Covers layout session.slots memory →
    Attends method session (rule store) (evaluation memory) (Decides layout session)

/-- The analysis has come to a store that knows slots of the layout alone. -/
structure Lands (layout : Layout) (before after : Session) (store : Store) : Prop where
  slots : before.slots.Extends after.slots
  fits : layout.Fits after.slots
  within : store.Within after.slots

/-- What the analysis of an expression does whether or not an execution comes to it. -/
structure Meaning.Orderly (layout : Layout) (meaning : Meaning) : Prop where
  records : meaning.Records
  value : ∀ ⦃session : Session⦄ ⦃store : Store⦄, layout.Fits session.slots →
    store.Within session.slots →
    Lands layout session (meaning.value store session).2 (meaning.value store session).1.2
  branches : ∀ ⦃session : Session⦄ ⦃store : Store⦄, layout.Fits session.slots →
    store.Within session.slots → ∀ holds, Lands layout session (meaning.branches store session).2
      ((meaning.branches store session).1.taken holds)
  flat : ∀ ⦃session : Session⦄ ⦃store : Store⦄, layout.Fits session.slots →
    store.Within session.slots → (meaning.value store session).1.1.ty?.all Ty.isFlat = true

/-- Every value of the evaluation is null, or none is. -/
def Evaluation.Always (evaluation : Evaluation) (isNull : Bool) : Prop :=
  ∀ memory, Concludes (evaluation memory) (fun _ => True) fun answer => answer.1 = isNull

/-- The analysis of an expression attends whatever the expression does when it runs. -/
structure Meaning.Sound (layout : Layout) (method : String) (meaning : Meaning)
    (behaviour : Behaviour) : Prop where
  orderly : meaning.Orderly layout
  value : SoundValue layout method meaning.value behaviour.value
  branches : SoundBranches layout method meaning.branches behaviour.decide
  span : meaning.span = behaviour.span
  null : meaning.isNull = true → behaviour.value.Always true
  constant : meaning.isConstant = true → behaviour.value.Always false

/-- The type of the value is flat, besides all that covers the answer. -/
theorem Meaning.Sound.value_flat {meaning : Meaning} {behaviour : Behaviour}
    (sound : meaning.Sound layout method behaviour) {session : Session} {store : Store}
    {memory : Memory} (fits : layout.Fits session.slots)
    (covers : store.Covers layout session.slots memory) :
    Attends method session (meaning.value store) (behaviour.value memory)
      fun after result answer => Yields layout session after result answer ∧
        result.1.ty?.all Ty.isFlat = true :=
  (sound.value fits covers).noting (sound.orderly.flat fits covers.within)

section Guards

variable {rule : Store → Analysis (Value × Store)} {choose : Store → Analysis Branches}
  {evaluation : Evaluation} {behaviour : Behaviour} {span : Span} {ty? : Option Ty}

/-- A store that covers a memory is reachable. -/
theorem SoundValue.guard (sound : SoundValue layout method rule evaluation) :
    SoundValue layout method (Meaning.guardValue rule) evaluation := by
  intro session store memory fits covers
  rw [Meaning.guardValue, if_pos covers.reachable]
  exact sound fits covers

/-- A guarded rule need be sound for live stores alone. -/
theorem SoundBranches.guard (sound : SoundBranches layout method choose evaluation) :
    SoundBranches layout method (Meaning.guardBranches choose) evaluation := by
  intro session store memory fits covers
  rw [Meaning.guardBranches, if_pos covers.reachable]
  exact sound fits covers

/-- Both outcomes of a value as a condition know the same. -/
theorem SoundValue.branches (sound : SoundValue layout method rule evaluation) (span : Span) :
    SoundBranches layout method (fun store => do
      let result ← rule store
      return ⟨result.2, result.2⟩) (Behaviour.ofValue span evaluation).decide := by
  intro session store memory fits covers
  refine (sound fits covers).bind (fun _ => .pure _) fun {after result answer} yields => ?_
  exact .pure (.same yields.slots yields.fits (yields.covers.frame rfl))

/-- The value of a condition is never null, and the store after it covers both outcomes. -/
theorem SoundBranches.value (sound : SoundBranches layout method choose evaluation) :
    SoundValue layout method (fun store => do
      let branches ← choose store
      return (.loose .notNull ty?,
        branches.whenTrue.join (← Analysis.slots) branches.whenFalse))
      (Behaviour.ofDecision span evaluation).value := by
  intro session store memory fits covers
  refine (sound fits covers).bind (fun _ => .bind .slots fun _ => .pure _)
    fun {after branches answer} decides => ?_
  refine .pure ⟨decides.slots, decides.fits, ?_, .loose (fun null => by cases null) _⟩
  have taken := decides.covers
  cases holds : answer.1 with
  | true =>
      rw [holds] at taken
      exact taken.join_left decides.fits (decides.within false)
  | false =>
      rw [holds] at taken
      exact taken.join_right decides.fits (decides.within true)

/-- A node given by the rule of its value is sound if the rule is. -/
theorem sound_ofValue (orderly : (Meaning.ofValue span ty? rule).Orderly layout)
    (sound : SoundValue layout method rule evaluation) :
    (Meaning.ofValue span ty? rule).Sound layout method (.ofValue span evaluation) where
  orderly := orderly
  value := sound.guard
  branches := (sound.branches span).guard
  span := rfl
  null never := by cases never
  constant never := by cases never

/-- A node given by the rule of its branches is sound if the rule is. -/
theorem sound_ofBranches (orderly : (Meaning.ofBranches span ty? choose).Orderly layout)
    (sound : SoundBranches layout method choose evaluation) :
    (Meaning.ofBranches span ty? choose).Sound layout method (.ofDecision span evaluation) where
  orderly := orderly
  value := sound.value.guard
  branches := sound.guard
  span := rfl
  null never := by cases never
  constant never := by cases never

end Guards

end NullFlow
