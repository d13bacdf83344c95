import NullFlow.Proofs.Analysis.Discipline.Meanings
import NullFlow.Proofs.Diagnostic.Ranks
import NullFlow.Proofs.Run.Reports
/-!
Hints do not disturb the analysis. The rules do not look at whether hints are wanted, and every
action does the same to a session that has been told to drop hints as to one that keeps them. So an
analysis without hints is the analysis with them, less the hints.
-/

namespace NullFlow

/-- The context with or without hints. -/
def Context.hinting (context : Context) (wanted : Bool) : Context :=
  { context with options := { context.options with reportHints := wanted } }

section Context

variable (context : Context) (wanted : Bool)

/-- Filling an array does not ask whether hints are wanted. -/
theorem fillArray_hinting : fillArray (context.hinting wanted) = fillArray context := by
  funext element items
  induction items with
  | nil => rfl
  | cons part rest ih =>
      funext store
      rw [fillArray, fillArray, ih]
      rfl

/-- Evaluating arguments does not ask whether hints are wanted. -/
theorem evaluateArguments_hinting :
    evaluateArguments (context.hinting wanted) = evaluateArguments context := by
  funext signature position arguments
  induction arguments generalizing position with
  | nil => rfl
  | cons argument rest ih =>
      funext bindings store
      rw [evaluateArguments, evaluateArguments, ih]
      rfl

theorem evaluateLambdas_hinting :
    evaluateLambdas (context.hinting wanted) = evaluateLambdas context := by
  funext signature types position arguments
  induction arguments generalizing position with
  | nil => rfl
  | cons argument rest ih =>
      funext bindings
      rw [evaluateLambdas, evaluateLambdas, ih]
      rfl

/-- Passing arguments does not ask whether hints are wanted. -/
theorem passArguments_hinting : passArguments (context.hinting wanted) = passArguments context := by
  funext signature arguments types dynamic store
  rw [passArguments, passArguments, evaluateArguments_hinting, evaluateLambdas_hinting]
  rfl

mutual

theorem seedMember_hinting {owner? : Option Ty} {path : List (String × FlowState)}
    {rest : List (Initializer Part)}
    (ofRest : seedMembers (context.hinting wanted) owner? path rest =
      seedMembers context owner? path rest) :
    ∀ entry : Initializer Part, seedMembers (context.hinting wanted) owner? path (entry :: rest) =
      seedMembers context owner? path (entry :: rest)
  | .value member part => by
      funext store
      rw [seedMembers, seedMembers, ofRest]
      rfl
  | .nested member entries => by
      funext store
      rw [seedMembers, seedMembers, ofRest, seedMembers_hinting]
      rfl

/-- Planting initializers does not ask whether hints are wanted. -/
theorem seedMembers_hinting (owner? : Option Ty) (path : List (String × FlowState)) :
    ∀ entries : List (Initializer Part), seedMembers (context.hinting wanted) owner? path entries =
      seedMembers context owner? path entries
  | [] => by
      funext store
      rw [seedMembers, seedMembers]
  | entry :: rest => seedMember_hinting (seedMembers_hinting owner? path rest) entry

end

/-- The solver does not ask whether hints are wanted. -/
theorem iterate_hinting : Sweep.iterate (context.hinting wanted) = Sweep.iterate context := by
  funext graph start sources order later
  induction later with
  | zero =>
      funext passes before
      rw [Sweep.iterate, Sweep.iterate]
      rfl
  | succ later ih =>
      funext passes before
      rw [Sweep.iterate, Sweep.iterate]
      dsimp only
      rw [ih]
      rfl

/-- The analysis of a graph does not ask whether hints are wanted. -/
theorem analyze_hinting (graph : MeaningGraph) (start : Store) :
    graph.analyze (context.hinting wanted) start = graph.analyze context start := by
  rw [FlowGraph.analyze, FlowGraph.analyze, FlowGraph.solve, FlowGraph.solve, iterate_hinting]
  rfl

theorem analyzeLambda_hinting (graph : MeaningGraph) (delegate? : Option Ty) :
    graph.analyzeLambda (context.hinting wanted) delegate? =
      graph.analyzeLambda context delegate? := by
  rw [FlowGraph.analyzeLambda, FlowGraph.analyzeLambda, analyze_hinting]
  rfl

/-- No rule looks at whether hints are wanted. -/
theorem ofNode_hinting : Meaning.ofNode (context.hinting wanted) = Meaning.ofNode context := by
  funext node
  unfold Meaning.ofNode arrayRule callRule createRule construct lambdaMeaning
  simp only [fillArray_hinting, passArguments_hinting, analyzeLambda_hinting, seedMembers_hinting]
  rfl

/-- The graph of code does not depend on whether hints are wanted. -/
theorem graph_hinting (code : Code) :
    code.graph (context.hinting wanted) = code.graph context := by
  rw [Code.graph, Code.graph, ofNode_hinting]

end Context

/-- The diagnostic is no hint. -/
def Diagnostic.isWarning (diagnostic : Diagnostic) : Bool := diagnostic.severity == .warning

/-- The recorder after hints have become unwanted: those that it holds are dropped. -/
def Recorder.quiet (recorder : Recorder) : Recorder :=
  { recorder with reportHints := false, items := recorder.items.filter Diagnostic.isWarning }

/-- Recording and then silencing is recording in silence. -/
theorem Recorder.quiet_emit (recorder : Recorder) (diagnostic : Diagnostic) :
    recorder.quiet.emit diagnostic = (recorder.emit diagnostic).quiet := by
  obtain ⟨muted, reportHints, items⟩ := recorder
  cases severity : diagnostic.severity <;> cases muted <;> cases reportHints <;>
    simp [emit, quiet, severity, Diagnostic.isWarning]

/-- The session after hints have become unwanted. -/
def Session.quiet (session : Session) : Session :=
  { session with recorder := session.recorder.quiet }

/-- The action does the same whether or not hints are wanted. -/
def IgnoresHints {Result : Type} (action : Analysis Result) : Prop :=
  ∀ session : Session, action session.quiet = ((action session).1, (action session).2.quiet)

namespace IgnoresHints

variable {Result Other : Type}

theorem pure (result : Result) : IgnoresHints (Pure.pure result : Analysis Result) := fun _ => rfl

/-- Actions that ignore hints do so one after the other. -/
theorem bind {action : Analysis Result} {next : Result → Analysis Other}
    (early : IgnoresHints action)
    (late : ∀ result, Analysis.Yields action result → IgnoresHints (next result)) :
    IgnoresHints (action >>= next) := by
  intro session
  rw [Comparison.bind_apply, Comparison.bind_apply, early session]
  exact late _ ⟨session, rfl⟩ (action session).2

/-- A recorder that ignores hints takes in everything else. -/
theorem emit (diagnostic : Diagnostic) : IgnoresHints (Analysis.emit diagnostic) := by
  intro session
  have same := session.recorder.quiet_emit diagnostic
  change ((), { session.quiet with recorder := session.recorder.quiet.emit diagnostic }) = _
  rw [same]
  rfl

theorem modifyReturns (change : List Returned → List Returned) :
    IgnoresHints (Analysis.modifyReturns change) := by
  rintro ⟨slots, recorder, frames, cancelled, checks⟩
  cases frames <;> rfl

/-- Every action of the analysis ignores hints. -/
def total (context : Context) : TotalDiscipline context where
  covers _ := True
  Holds := IgnoresHints
  ofPure := pure
  ofBind := bind
  ofSlots _ := rfl
  ofOnSlots _ _ := rfl
  ofEmit _ _ _ := emit _
  ofFrame _ := rfl
  ofReturns := modifyReturns
  ofMustStop _ := rfl
  ofMute _ _ := rfl
  ofPushFrame _ _ := rfl
  ofPopFrame _ := rfl
  ofCancel _ := rfl

end IgnoresHints

/-- Whether hints are kept changes nothing in the analysis of code. -/
theorem graph_ignoresHints (context : Context) (code : Code) :
    (code.graph context).Obeys (IgnoresHints.total context).discipline :=
  Discipline.graph_of fun expr _ =>
    Expr.fromParts (motive := (IgnoresHints.total context).discipline.OfExpr)
      (fun node => TotalDiscipline.ofNode node trivial) expr

/-- The options with or without hints. -/
def Options.hinting (options : Options) (wanted : Bool) : Options :=
  { options with reportHints := wanted }

/-- A run without hints is the run with hints, less the hints. -/
theorem Method.run_quiet (method : Method) (classes : ClassTable) (options : Options)
    (token : CancellationToken) :
    method.run classes (options.hinting false) token =
      ((method.run classes (options.hinting true) token).1,
        (method.run classes (options.hinting true) token).2.quiet) := by
  let context := method.context classes (options.hinting true) token
  have ignores : IgnoresHints ((method.code.graph context).analyze context Store.entry) :=
    TotalDiscipline.analyze (graph_ignoresHints context method.code) Store.entry
  have silenced : method.run classes (options.hinting false) token =
      (method.code.graph context).analyze context Store.entry
        (method.session (options.hinting true)).quiet := by
    change ((method.code.graph (context.hinting false)).analyze (context.hinting false) Store.entry)
      _ = _
    rw [graph_hinting, analyze_hinting]
    rfl
  rw [silenced, ignores]
  rfl

end NullFlow

/-!
Two ways to hide hints. An analysis may drop them at once, or the run may drop them afterwards for
their severity. The outcome is the same.
-/

namespace NullFlow

/-- The diagnostics that are no hints. -/
def Diagnostic.withoutHints (diagnostics : List Diagnostic) : List Diagnostic :=
  diagnostics.filter fun diagnostic => diagnostic.kind ≠ .neverNull

/-- The analysis less its hints. -/
def MethodAnalysis.withoutHints (analysis : MethodAnalysis) : MethodAnalysis :=
  { analysis with diagnostics := Diagnostic.withoutHints analysis.diagnostics }

/-- The report less its hints. -/
def MethodReport.withoutHints (report : MethodReport) : MethodReport :=
  { report with analysis := report.analysis.withoutHints }

/-- A finding is a warning unless it is the hint on a fallback. -/
theorem Diagnostic.Rated.isWarning_eq {diagnostic : Diagnostic} (rated : diagnostic.Rated) :
    diagnostic.isWarning = decide (diagnostic.kind ≠ .neverNull) := by
  unfold isWarning
  rw [rated]
  cases diagnostic.kind <;> rfl

/-- Warnings are what is left without hints. -/
theorem Diagnostic.filter_isWarning {diagnostics : List Diagnostic}
    (rated : ∀ diagnostic ∈ diagnostics, diagnostic.Rated) :
    diagnostics.filter isWarning = withoutHints diagnostics :=
  List.filter_congr fun _ member => (rated _ member).isWarning_eq

/-- To drop the hints that are recorded is to drop the hints that are reported. -/
theorem Recorder.finish_quiet {recorder : Recorder}
    (rated : ∀ diagnostic ∈ recorder.items, diagnostic.Rated) :
    recorder.quiet.finish = Diagnostic.withoutHints recorder.finish := by
  have byRank : ∀ first ∈ recorder.items, ∀ second ∈ recorder.items,
      Diagnostic.order first second = .eq → first.isWarning = second.isWarning := by
    intro first isFirst second isSecond same
    unfold Diagnostic.isWarning
    rw [(rated first isFirst).severity_eq (rated second isSecond) same]
  change Diagnostic.sortAndDedup (recorder.items.filter Diagnostic.isWarning) = _
  rw [Diagnostic.sortAndDedup_filter byRank]
  exact Diagnostic.filter_isWarning fun diagnostic member =>
    rated diagnostic (Diagnostic.of_mem_sortAndDedup member)

/-- An analysis without hints is the analysis with them, less the hints. -/
theorem Method.analyze_quiet (method : Method) (classes : ClassTable) (options : Options)
    (token : CancellationToken) :
    method.analyze classes (options.hinting false) token =
      (method.analyze classes (options.hinting true) token).map
        MethodAnalysis.withoutHints := by
  have rated : ∀ diagnostic ∈
      (method.run classes (options.hinting true) token).2.recorder.items,
      diagnostic.Rated := fun diagnostic member =>
    (method.run_finds classes (options.hinting true) token member).rated
  unfold analyze
  rw [method.run_quiet]
  generalize method.run classes (options.hinting true) token = answer at rated ⊢
  obtain ⟨solution?, session⟩ := answer
  cases solution? with
  | none => rfl
  | some solution =>
      have sameStop : session.quiet.mustStop token = session.mustStop token := rfl
      have found : session.quiet.recorder.finish = Diagnostic.withoutHints session.recorder.finish :=
        Recorder.finish_quiet rated
      dsimp only
      rw [MethodAnalysis.ofRun?, MethodAnalysis.ofRun?, sameStop, found]
      cases session.mustStop token <;> rfl

namespace Run

theorem mapM_change {Item Result Other Fault : Type} {first : Item → Except Fault Result}
    {second : Item → Except Fault Other} {change : Result → Other}
    (each : ∀ item, second item = (first item).map change) (items : List Item) :
    items.mapM second = (items.mapM first).map (List.map change) := by
  induction items with
  | nil => rfl
  | cons item rest ih =>
      rw [List.mapM_cons, List.mapM_cons, each, ih]
      cases first item <;> cases rest.mapM first <;> rfl

/-- The reports of a run that wants no hints are those of a run that does, without the hints. -/
theorem reports_quiet (inputs : List Input) (options : Options) (stopRequested : Bool) :
    reports inputs (options.hinting false) stopRequested =
      (reports inputs (options.hinting true) stopRequested).map
        (List.map MethodReport.withoutHints) := by
  refine mapM_change (fun entry => ?_) (methods inputs)
  dsimp only
  rw [entry.2.analyze_quiet]
  cases entry.2.analyze entry.1 (options.hinting true) stopRequested <;> rfl

end Run

namespace Settings

/-- The settings under which an analysis drops hints. -/
def silencing (settings : Settings) : Settings :=
  { settings with reportHints := false, threshold := "hint" }

/-- The settings under which the run drops hints. -/
def screening (settings : Settings) : Settings :=
  { settings with reportHints := true, threshold := "warning" }

end Settings

namespace Run

section Outcome

variable {reports : List MethodReport} (settings : Settings)
  (rated : ∀ report ∈ reports, ∀ diagnostic ∈ report.analysis.diagnostics, diagnostic.Rated)

include rated

/-- Findings may be screened before they are counted or while they are found. -/
theorem findings_quiet : findings settings.silencing (reports.map MethodReport.withoutHints) =
    findings settings.screening reports := by
  let given := reports.flatMap fun report => report.analysis.diagnostics
  have ratedGiven : ∀ diagnostic ∈ given, diagnostic.Rated := by
    intro diagnostic member
    obtain ⟨report, inReports, inReport⟩ := List.mem_flatMap.mp member
    exact rated report inReports diagnostic inReport
  have silenced : ((reports.map MethodReport.withoutHints).flatMap fun report =>
      report.analysis.diagnostics) = Diagnostic.withoutHints given := by
    rw [List.flatMap_map, Diagnostic.withoutHints, List.filter_flatMap]
    rfl
  have screened : (given.filter fun diagnostic => diagnostic.severity.atLeast .warning) =
      given.filter Diagnostic.isWarning :=
    List.filter_congr fun diagnostic _ => by
      unfold Diagnostic.isWarning
      cases diagnostic.severity <;> rfl
  have unscreened : ((Diagnostic.withoutHints given).filter fun diagnostic =>
      diagnostic.severity.atLeast .hint) = Diagnostic.withoutHints given :=
    List.filter_eq_self.mpr fun diagnostic _ => by cases diagnostic.severity <;> rfl
  calc findings settings.silencing (reports.map MethodReport.withoutHints)
      = Diagnostic.sortAndDedup ((Diagnostic.withoutHints given).filter fun diagnostic =>
          diagnostic.severity.atLeast .hint) := by rw [← silenced]; rfl
    _ = Diagnostic.sortAndDedup (given.filter fun diagnostic =>
          diagnostic.severity.atLeast .warning) := by
        rw [unscreened, screened, Diagnostic.filter_isWarning ratedGiven]
    _ = findings settings.screening reports := rfl

/-- The outcome of a run is the same whether hints are never kept or left out later. -/
theorem outcome_quiet : outcome settings.silencing (reports.map MethodReport.withoutHints) =
    outcome settings.screening reports := by
  have unconverged : (reports.map MethodReport.withoutHints).filter
      (fun report => !report.analysis.converged) =
      (reports.filter fun report => !report.analysis.converged).map MethodReport.withoutHints :=
    List.filter_map
  unfold outcome
  rw [findings_quiet settings rated, unconverged, List.map_map, List.length_map]
  rfl

end Outcome

end Run

/-- Hints are hidden alike by the analysis and by the run. For every method the analysis that drops
them finds what the analysis that keeps them finds, less the hints. -/
theorem hints_hidden_alike (inputs : List Input) (settings : Settings)
    (valid : ∀ input ∈ inputs, input.validate = .ok ()) :
    (∀ stopRequested, run inputs settings.silencing stopRequested =
      run inputs settings.screening stopRequested) ∧
    (∃ outcome, run inputs settings.silencing false = .ok outcome) ∧
    ∀ input ∈ inputs, ∀ body ∈ input.methods, ∃ method analysis,
      body.method? = some method ∧
      method.analyze input.classes settings.screening.options false = some analysis ∧
      method.analyze input.classes settings.silencing.options false =
        some analysis.withoutHints := by
  refine ⟨fun stopRequested => ?_, ?_, fun input listed body inInput => ?_⟩
  · have silenced := Run.reports_quiet inputs settings.options stopRequested
    rw [Run.run_valid valid, Run.run_valid valid]
    change (Run.reports inputs (settings.options.hinting false) stopRequested).map _ =
      (Run.reports inputs (settings.options.hinting true) stopRequested).map _
    rw [silenced]
    cases answered : Run.reports inputs (settings.options.hinting true) stopRequested with
    | error fault => rfl
    | ok reports => exact congrArg Except.ok (Run.outcome_quiet settings (Run.reports_rated answered))
  · obtain ⟨reports, answered⟩ := Run.reports_exist inputs settings.silencing.options
    exact ⟨_, by rw [Run.run_valid valid, answered]; rfl⟩
  · obtain ⟨method, found⟩ := Body.method?_exists (Input.body_valid (valid input listed) body inInput)
    obtain ⟨analysis, analyzed⟩ := method.analyze_answers input.classes settings.screening.options
    have silenced := method.analyze_quiet input.classes settings.options false
    change method.analyze input.classes (settings.options.hinting true) false = _ at analyzed
    rw [analyzed] at silenced
    exact ⟨method, analysis, found, analyzed, silenced⟩

section Example

/-- A fallback in a lambda for a variable that is never null, and then a call of a variable that may
be null. -/
def hintInLambda : Body where
  name := "M"
  span? := none
  thisType? := none
  parameters := [0, 1]
  returnType := .void
  locals := #[⟨"x", .named "C" [] .plain, false⟩, ⟨"y", .named "C" [] .nullable, false⟩]
  exprs := #[⟨.read 0, some (.named "C" [] .plain), .point "a.cs" 1 7⟩,
    ⟨.coalesce 0 0, some (.named "C" [] .plain), .point "a.cs" 1 7⟩,
    ⟨.lambda [] (.expr 1), none, .point "a.cs" 1 1⟩,
    ⟨.read 1, some (.named "C" [] .nullable), .point "a.cs" 2 1⟩,
    ⟨.call (some 3) ⟨"Foo", "C.Foo()", some "C", [], [], .void⟩ [], some .void,
      .point "a.cs" 2 1⟩]
  stmts := #[⟨.evaluate 2, .none⟩, ⟨.evaluate 4, .none⟩, ⟨.block [0, 1], .none⟩]
  root := 2

def hintInLambdaInput : Input := ⟨.ofList [⟨"C", [], none⟩], [hintInLambda]⟩

theorem hintInLambda_hidden : (∀ input ∈ [hintInLambdaInput], input.validate = .ok ()) ∧
    ∃ outcome, run [hintInLambdaInput] Settings.default.silencing false = .ok outcome ∧
      run [hintInLambdaInput] Settings.default.screening false = .ok outcome := by
  have valid : ∀ input ∈ [hintInLambdaInput], input.validate = .ok () := by
    intro input member
    obtain rfl := List.mem_singleton.mp member
    decide +kernel
  obtain ⟨alike, ⟨outcome, ran⟩, -⟩ := hints_hidden_alike _ .default valid
  exact ⟨valid, outcome, ran, (alike false).symm.trans ran⟩

example : ((run [hintInLambdaInput] .default false).toOption.map fun outcome =>
    (outcome.summary.warnings, outcome.summary.hints)) = some (1, 1) := by
  decide +kernel

end Example

end NullFlow
