import NullFlow.Proofs.Analysis.Discipline.Actions
import NullFlow.Proofs.Analysis.Discipline.Meanings
/-!
What an analysis leaves behind besides slots. An action hands findings to the recorder and takes
none back, and it leaves the frames of the bodies around the current point as they are.
-/

namespace NullFlow

/-- The second recorder is the first one after it was handed some findings. -/
def Recorder.Takes (context : Context) (before after : Recorder) : Prop :=
  ∃ findings : List Diagnostic, (∀ finding ∈ findings, context.Finds finding) ∧
    after = findings.foldl emit before

namespace Recorder.Takes

variable {context : Context} {first second third : Recorder}

theorem refl (recorder : Recorder) : recorder.Takes context recorder :=
  ⟨[], fun _ member => absurd member List.not_mem_nil, rfl⟩

/-- A recorder that takes findings twice takes findings. -/
theorem trans (early : first.Takes context second) (late : second.Takes context third) :
    first.Takes context third := by
  obtain ⟨findings, found, rfl⟩ := early
  obtain ⟨later, foundLater, rfl⟩ := late
  refine ⟨findings ++ later, ?_, List.foldl_append.symm⟩
  intro finding member
  exact (List.mem_append.mp member).elim (found finding) (foundLater finding)

/-- A recorder takes a finding of the analysis, unless it is mute. -/
theorem emit {finding : Diagnostic} (finds : context.Finds finding) (recorder : Recorder) :
    recorder.Takes context (recorder.emit finding) := by
  refine ⟨[finding], ?_, rfl⟩
  intro other member
  obtain rfl := List.mem_singleton.mp member
  exact finds

/-- A mute recorder stays as it is. -/
theorem eq_of_muted (takes : first.Takes context second) (muted : first.muted = true) :
    second = first := by
  obtain ⟨findings, -, rfl⟩ := takes
  induction findings with
  | nil => rfl
  | cons finding rest ih =>
      rw [List.foldl_cons, show first.emit finding = first by simp [Recorder.emit, muted], ih]

/-- Every item was there before or is a finding. -/
theorem items (takes : first.Takes context second) {diagnostic : Diagnostic}
    (member : diagnostic ∈ second.items) :
    diagnostic ∈ first.items ∨ context.Finds diagnostic := by
  obtain ⟨findings, found, rfl⟩ := takes
  induction findings generalizing first with
  | nil => exact Or.inl member
  | cons finding rest ih =>
      have earlier := ih (fun other inRest => found other (List.mem_cons_of_mem _ inRest)) member
      rcases earlier with kept | finds
      · unfold Recorder.emit at kept
        split at kept
        · exact Or.inl kept
        · rcases List.mem_append.mp kept with before | isNew
          · exact Or.inl before
          · obtain rfl := List.mem_singleton.mp isNew
            exact Or.inr (found _ List.mem_cons_self)
      · exact Or.inr finds

end Recorder.Takes

/-- The action does nothing to the recorder except to hand it findings, and nothing to the frames
that the view shows. -/
structure Framed {Result : Type} (context : Context) (view : List Frame → List Frame)
    (action : Analysis Result) : Prop where
  recorder : ∀ session : Session, session.recorder.Takes context (action session).2.recorder
  frames : ∀ session : Session, view (action session).2.frames = view session.frames

namespace Framed

variable {context : Context} {view : List Frame → List Frame} {Result Other Item : Type}

theorem pure (result : Result) : Framed context view (Pure.pure result : Analysis Result) :=
  ⟨fun _ => .refl _, fun _ => rfl⟩

/-- What follows an action is framed if it is for every result that the action can have. -/
theorem after {action : Analysis Result} {next : Result → Analysis Other}
    (early : Framed context view action)
    (late : ∀ result, Analysis.Yields action result → Framed context view (next result)) :
    Framed context view (action >>= next) where
  recorder session := (early.recorder session).trans
    ((late (action session).1 ⟨session, rfl⟩).recorder (action session).2)
  frames session := ((late (action session).1 ⟨session, rfl⟩).frames (action session).2).trans
    (early.frames session)

/-- Framed actions are framed together. -/
theorem bind {action : Analysis Result} {next : Result → Analysis Other}
    (early : Framed context view action) (late : ∀ result, Framed context view (next result)) :
    Framed context view (action >>= next) := early.after fun result _ => late result

/-- An action that touches no frame does not touch those of the bodies around. -/
theorem outer {action : Analysis Result} (framed : Framed context id action) :
    Framed context List.tail action :=
  ⟨framed.recorder, fun session => congrArg List.tail (framed.frames session)⟩

theorem slots : Framed context view Analysis.slots := ⟨fun _ => .refl _, fun _ => rfl⟩

/-- Actions on slots touch neither the frames nor the recorder. -/
theorem onSlots (action : StateM SlotTable Result) :
    Framed context view (Analysis.onSlots action) := ⟨fun _ => .refl _, fun _ => rfl⟩

theorem emit {finding : Diagnostic} (finds : context.Finds finding) :
    Framed context view (Analysis.emit finding) := ⟨fun _ => .emit finds _, fun _ => rfl⟩

theorem frame : Framed context view Analysis.frame := ⟨fun _ => .refl _, fun _ => rfl⟩

theorem mustStop : Framed context view (Analysis.mustStop context) :=
  ⟨fun _ => .refl _, fun _ => rfl⟩

theorem cancel : Framed context view Analysis.cancel := ⟨fun _ => .refl _, fun _ => rfl⟩

/-- Changes of the returns leave the frames around alone. -/
theorem modifyReturns (change : List Returned → List Returned) :
    Framed context List.tail (Analysis.modifyReturns change) := by
  constructor
  · rintro ⟨slots, recorder, frames, cancelled, checks⟩
    cases frames <;> exact .refl _
  · rintro ⟨slots, recorder, frames, cancelled, checks⟩
    cases frames <;> rfl

/-- Expressions leave all frames as they are, and blocks those of the bodies around. -/
def discipline (context : Context) : Discipline context where
  covers _ := True
  InExpr := Framed context id
  InBlock := Framed context List.tail
  ofPure := pure
  ofBind := after
  ofSlots := slots
  ofOnSlots _ := onSlots _
  ofEmit finds _ _ := emit finds
  ofInner := outer
  ofSequel := bind
  ofFrame := frame
  ofReturns := modifyReturns
  ofMustStop := mustStop

end Framed

end NullFlow

/-!
The solver reports nothing, and the visit after it reports findings only. Both change no more of the
frames than the returns of the innermost one. So the meanings of all expressions report findings only
and leave all frames as they are.
-/

namespace NullFlow

namespace Framed

variable {context : Context}

section Solver

variable {graph : MeaningGraph} (framed : graph.Obeys (discipline context)) (start : Store)
include framed

/-- Solving leaves the frames around the body alone. -/
theorem solve : Framed context List.tail (graph.solve context start) :=
  Discipline.InBlock.solve framed start

/-- The solver works in silence. -/
theorem unmuted_solve (session : Session) : (Comparison.unmuted session
    (graph.solve context start (Comparison.muted session)).2).recorder = session.recorder := by
  have takes := (Framed.solve framed start).recorder (Comparison.muted session)
  have silent : (graph.solve context start (Comparison.muted session)).2.recorder =
    (Comparison.muted session).recorder := takes.eq_of_muted rfl
  change { (graph.solve context start (Comparison.muted session)).2.recorder with
    muted := session.recorder.muted } = session.recorder
  rw [silent]
  rfl

/-- Reporting leaves the frames around the body alone. -/
theorem report (solution : Solution) :
    Framed context List.tail (Comparison.report context graph solution) :=
  Discipline.InBlock.report framed solution

/-- Solving and reporting leave the frames around the body alone. -/
theorem analyze : Framed context List.tail (graph.analyze context start) := by
  have solve (session : Session) :
      (graph.solve context start (Comparison.muted session)).2.frames.tail =
        session.frames.tail := (Framed.solve framed start).frames (Comparison.muted session)
  have unmuted := unmuted_solve framed start
  constructor
  · intro session
    have same := unmuted session
    rw [Comparison.analyze_eq]
    cases solved : graph.solve context start (Comparison.muted session) with
    | mk solution? after =>
        rw [solved] at same
        cases solution? with
        | none => exact same ▸ .refl _
        | some solution =>
            have reported := (Framed.report framed solution).recorder
              (Comparison.unmuted session after)
            rw [same] at reported
            exact reported
  · intro session
    have outer := solve session
    rw [Comparison.analyze_eq]
    cases solved : graph.solve context start (Comparison.muted session) with
    | mk solution? after =>
        rw [solved] at outer
        cases solution? with
        | none => exact outer
        | some solution =>
            exact ((Framed.report framed solution).frames
              (Comparison.unmuted session after)).trans outer

/-- The analysis of a body leaves the frames around it alone. -/
theorem analyzeBody : Framed context List.tail (Comparison.analyzeBody context graph) := by
  apply (Framed.analyze framed _).bind
  intro solution?
  cases solution? with
  | none => exact .cancel
  | some solution => exact .pure _

/-- The frame of a lambda is gone after its analysis. -/
theorem analyzeLambda (delegate? : Option Ty) :
    Framed context id (graph.analyzeLambda context delegate?) := by
  rw [Comparison.analyzeLambda_eq]
  have body := Framed.analyzeBody framed
  -- The value of the lambda is found from the frame that was popped, without any action.
  have popped (session : Session) : (Comparison.returnedValue context session).2 =
      { session with frames := session.frames.tail } := by
    rw [Comparison.returnedValue, Comparison.bind_apply]
    dsimp only
    split <;> rfl
  constructor
  · intro session
    rw [Comparison.bind_apply, Comparison.bind_apply, popped]
    exact body.recorder _
  · intro session
    rw [Comparison.bind_apply, Comparison.bind_apply, popped]
    exact body.frames _

end Solver

end Framed

/-- Whatever is asked of an expression, its meaning reports findings only and leaves all frames as
they are. -/
theorem meaning_framed (context : Context) (expr : Expr) :
    (expr.meaning context).Obeys (Framed.discipline context) :=
  Expr.fromParts (motive := (Framed.discipline context).OfExpr) (fun node children bodies =>
    Discipline.node (fun _ framed delegate? => Framed.analyzeLambda framed delegate?) node trivial
      children bodies) expr

/-- All parts of the graph of code are framed. -/
theorem graph_framed (context : Context) (code : Code) :
    (code.graph context).Obeys (Framed.discipline context) :=
  Discipline.graph_of fun expr _ => meaning_framed context expr

/-- The analysis of a method reports findings only. -/
theorem Method.run_finds (method : Method) (classes : ClassTable) (options : Options)
    (token : CancellationToken) {diagnostic : Diagnostic}
    (reported : diagnostic ∈ (method.run classes options token).2.recorder.items) :
    (method.context classes options token).Finds diagnostic := by
  have framed := Framed.analyze (graph_framed (method.context classes options token)
    method.code) Store.entry
  exact ((framed.recorder (method.session options)).items reported).resolve_left
    List.not_mem_nil

/-- An analysis reports what its run has recorded. -/
theorem Method.diagnostics_of_analyze {method : Method} {classes : ClassTable} {options : Options}
    {token : CancellationToken} {analysis : MethodAnalysis}
    (answer : method.analyze classes options token = some analysis) :
    analysis.diagnostics =
      Diagnostic.sortAndDedup (method.run classes options token).2.recorder.items := by
  unfold analyze at answer
  generalize method.run classes options token = ran at answer ⊢
  obtain ⟨solution?, session⟩ := ran
  cases solution? with
  | none => cases answer
  | some solution =>
      dsimp only [MethodAnalysis.ofRun?] at answer
      split at answer
      · cases answer
      · obtain rfl := Option.some.inj answer
        rfl

/-- What the analysis of a method answers was recorded by it. -/
theorem Method.recorded_of_analyze {method : Method} {classes : ClassTable} {options : Options}
    {token : CancellationToken} {analysis : MethodAnalysis}
    (answer : method.analyze classes options token = some analysis)
    {diagnostic : Diagnostic} (reported : diagnostic ∈ analysis.diagnostics) :
    diagnostic ∈ (method.run classes options token).2.recorder.items :=
  Diagnostic.of_mem_sortAndDedup (diagnostics_of_analyze answer ▸ reported)

/-- The analysis of a method rates its diagnostics by their rules. -/
theorem Method.analyze_rated {method : Method} {classes : ClassTable} {options : Options}
    {token : CancellationToken} {analysis : MethodAnalysis}
    (answer : method.analyze classes options token = some analysis)
    {diagnostic : Diagnostic} (reported : diagnostic ∈ analysis.diagnostics) :
    diagnostic.Rated :=
  (method.run_finds classes options token (recorded_of_analyze answer reported)).rated

end NullFlow

/-!
What the analysis of code leaves of a session. Evaluation restores the recorder and the frames that
it changes on its way through lambdas, appends to the findings and to the slots, and reports nothing
while the recorder is mute. The solver of a graph works in silence.
-/

namespace NullFlow

namespace Recorder.Takes

variable {context : Context} {first second : Recorder}

/-- Taking findings does not change whether a recorder is mute. -/
theorem muted_eq (takes : first.Takes context second) : second.muted = first.muted := by
  obtain ⟨findings, -, rfl⟩ := takes
  induction findings generalizing first with
  | nil => rfl
  | cons finding rest ih =>
      rw [List.foldl_cons, ih, Recorder.emit]
      split <;> rfl

/-- New items come after the old ones. -/
theorem appends (takes : first.Takes context second) : first.items <+: second.items := by
  obtain ⟨findings, -, rfl⟩ := takes
  induction findings generalizing first with
  | nil => exact List.prefix_rfl
  | cons finding rest ih =>
      refine List.IsPrefix.trans ?_ ih
      rw [Recorder.emit]
      split
      · exact List.prefix_rfl
      · exact List.prefix_append _ _

end Recorder.Takes

/-- Whatever session the action is given, the slots of the session keep their keys. -/
def KeepsSlots {Result : Type} (action : Analysis Result) : Prop :=
  ∀ session : Session, session.slots.Keeps (action session).2.slots

namespace KeepsSlots

variable {Result Other : Type}

/-- Actions that leave the table alone keep its slots. -/
theorem of_same {action : Analysis Result}
    (same : ∀ session, (action session).2.slots = session.slots) : KeepsSlots action :=
  fun session => (same session).symm ▸ .refl session.slots

theorem bind {action : Analysis Result} {next : Result → Analysis Other}
    (early : KeepsSlots action)
    (late : ∀ result, Analysis.Yields action result → KeepsSlots (next result)) :
    KeepsSlots (action >>= next) := fun session =>
  (early session).trans (late (action session).1 ⟨session, rfl⟩ (action session).2)

theorem modifyReturns (change : List Returned → List Returned) :
    KeepsSlots (Analysis.modifyReturns change) := of_same fun session =>
  (Comparison.Silent.modifyReturns change session).1

/-- Every action of the analysis keeps the slots. -/
def total (context : Context) : TotalDiscipline context where
  covers _ := True
  Holds := KeepsSlots
  ofPure _ := of_same fun _ => rfl
  ofBind := bind
  ofSlots := of_same fun _ => rfl
  ofOnSlots keeps session := keeps session.slots
  ofEmit _ _ _ := of_same fun _ => rfl
  ofFrame := of_same fun _ => rfl
  ofReturns := modifyReturns
  ofMustStop := of_same fun _ => rfl
  ofMute _ := of_same fun _ => rfl
  ofPushFrame _ := of_same fun _ => rfl
  ofPopFrame := of_same fun _ => rfl
  ofCancel := of_same fun _ => rfl

end KeepsSlots

/-- Whatever an expression does, slots keep their keys. -/
theorem meaning_keepsSlots (context : Context) (expr : Expr) :
    (expr.meaning context).Obeys (KeepsSlots.total context).discipline :=
  Expr.fromParts (motive := (KeepsSlots.total context).discipline.OfExpr)
    (fun node => TotalDiscipline.ofNode node trivial) expr

/-- The graph of the body of a lambda, or of the code of a method. -/
def LambdaBody.graph (context : Context) : LambdaBody Expr Code → MeaningGraph
  | .expr value => FlowGraph.ofValue (value.meaning context) (value.meaning context).span
  | .block code => code.graph context

/-- The graphs of all bodies keep a discipline that the meanings of all expressions keep. -/
theorem LambdaBody.graph_obeys {context : Context} {discipline : Discipline context}
    (each : ∀ expr : Expr, (expr.meaning context).Obeys discipline) (body : LambdaBody Expr Code) :
    (body.graph context).Obeys discipline := by
  cases body with
  | expr value => exact Discipline.graph_ofValue (each value)
  | block code => exact Discipline.graph_of fun expr _ => each expr

/-- The findings and slots of the first session are those of the second one, which may have more of
both. A mute recorder has no more. -/
structure Session.Continues (before after : Session) : Prop where
  muted : after.recorder.muted = before.recorder.muted
  silent : before.recorder.muted = true → after.recorder.items = before.recorder.items
  appended : before.recorder.items <+: after.recorder.items
  size : before.slots.size ≤ after.slots.size
  key? : ∀ {slot : SlotId} {key : SlotKey}, before.slots.key? slot = some key →
    after.slots.key? slot = some key
  get? : ∀ {slot : SlotId} {key : SlotKey}, before.slots.get? key = some slot →
    after.slots.get? key = some slot

/-- A session goes on if its recorder takes findings and its slots keep their keys. -/
theorem Session.continues_of {context : Context} {before after : Session}
    (takes : before.recorder.Takes context after.recorder)
    (keeps : before.slots.Keeps after.slots) : before.Continues after where
  muted := takes.muted_eq
  silent muted := congrArg Recorder.items (takes.eq_of_muted muted)
  appended := takes.appends
  size := keeps.size_le
  key? := keeps.key?
  get? := keeps.get?

/-- The action lets a session go on and leaves its frames as they are. -/
def Restores {Result : Type} (action : Analysis Result) : Prop :=
  ∀ session : Session, session.Continues (action session).2 ∧
    (action session).2.frames = session.frames

/-- A framed action that keeps the slots restores all else. -/
theorem restores_of {context : Context} {Result : Type} {action : Analysis Result}
    (framed : Framed context id action) (keeps : KeepsSlots action) : Restores action :=
  fun session => ⟨Session.continues_of (framed.recorder session) (keeps session),
    framed.frames session⟩

/-- What the analysis of a graph leaves of every session. It is made of two phases: the solver, which
is kept mute and records nothing, and the visit of the blocks with the solution. An analysis that is
stopped, be it after some passes, does not get to the second one. -/
structure FlowGraph.Restores (context : Context) (graph : MeaningGraph) (start : Store) :
    Prop where
  /-- A block records nothing while the recorder is mute. -/
  transfer : ∀ block ∈ graph.blocks, ∀ (entry : Store) (session : Session),
    session.recorder.muted = true →
      (block.transfer context entry session).2.recorder = session.recorder
  solve : ∀ session : Session, session.recorder.muted = true →
    (graph.solve context start session).2.recorder = session.recorder
  /-- After the solver the recorder is the one before it, with or without a solution. -/
  solved : ∀ session : Session,
    (Comparison.unmuted session
      (graph.solve context start (Comparison.muted session)).2).recorder = session.recorder
  /-- The analysis records what the visit with the solution records. -/
  reported : ∀ {session after : Session} {solution : Solution},
    graph.solve context start (Comparison.muted session) = (some solution, after) →
      graph.analyze context start session = (some solution,
        (Comparison.report context graph solution (Comparison.unmuted session after)).2)
  /-- Without a solution there is no visit. -/
  unsolved : ∀ {session after : Session},
    graph.solve context start (Comparison.muted session) = (none, after) →
      graph.analyze context start session = (none, Comparison.unmuted session after)
  continues : ∀ session : Session, session.Continues (graph.analyze context start session).2
  stopped : ∀ session : Session, (graph.analyze context start session).1 = none →
    (graph.analyze context start session).2.recorder = session.recorder
  outer : ∀ session : Session,
    (graph.analyze context start session).2.frames.tail = session.frames.tail

/-- A stopped analysis has only solved the graph, in silence. -/
theorem Framed.analyze_stopped {context : Context} {graph : MeaningGraph}
    (framed : graph.Obeys (discipline context)) (start : Store) {session : Session}
    (stopped : (graph.analyze context start session).1 = none) :
    (graph.analyze context start session).2.recorder = session.recorder := by
  have unmuted := Framed.unmuted_solve framed start session
  rw [Comparison.analyze_eq] at stopped ⊢
  cases solved : graph.solve context start (Comparison.muted session) with
  | mk solution? after =>
      rw [solved] at stopped unmuted
      cases solution? with
      | none => exact unmuted
      | some solution => cases stopped

/-- Whatever is asked of an expression in whatever session, at any depth of lambdas and whenever the
analysis has to stop, the session goes on with its frames as they were. The analysis of a body is
silent until the body is solved. -/
theorem evaluation_restores (context : Context) (store : Store) :
    (∀ expr : Expr, Restores ((expr.meaning context).value store) ∧
      Restores ((expr.meaning context).branches store) ∧
      Restores ((expr.meaning context).target store)) ∧
    ∀ body : LambdaBody Expr Code, (body.graph context).Restores context store := by
  constructor
  · intro expr
    have framed := meaning_framed context expr
    have keeps := meaning_keepsSlots context expr
    exact ⟨restores_of (framed.value store) (keeps.value store),
      restores_of (framed.branches store) (keeps.branches store),
      restores_of (framed.target store) (keeps.target store)⟩
  · intro body
    have framed := body.graph_obeys (meaning_framed context)
    have keeps := body.graph_obeys (meaning_keepsSlots context)
    have analyzed := Framed.analyze framed store
    constructor
    · intro block member entry session muted
      exact ((Discipline.InBlock.transfer (framed block member) entry).recorder
        session).eq_of_muted muted
    · intro session muted
      exact ((Framed.solve framed store).recorder session).eq_of_muted muted
    · exact Framed.unmuted_solve framed store
    · intro session after solution solved
      rw [Comparison.analyze_eq, solved]
    · intro session after solved
      rw [Comparison.analyze_eq, solved]
    · intro session
      exact Session.continues_of (analyzed.recorder session)
        (TotalDiscipline.analyze keeps store session)
    · exact fun session => Framed.analyze_stopped framed store
    · exact analyzed.frames

end NullFlow
