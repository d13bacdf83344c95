import NullFlow.CommandLine.Execution
import NullFlow.Proofs.Run.Reports
/-!
The code with which a check ends. It tells whether some method has a warning, unless the limit on
diagnostics cuts the report off before its first warning.
-/

namespace NullFlow

namespace Run

/-- The analysis of some method of the inputs finds a warning. -/
def Warns (inputs : List Input) (options : Options) : Prop :=
  ∃ entry ∈ methods inputs, ∃ analysis, entry.2.analyze entry.1 options false = some analysis ∧
    ∃ diagnostic ∈ analysis.diagnostics, diagnostic.severity = .warning

/-- The number of hints in front of the first warning. -/
def leadingHints (findings : List Diagnostic) : Nat :=
  (findings.takeWhile fun diagnostic => diagnostic.severity == .hint).length

section Findings

variable {reports : List MethodReport} {settings : Settings}

/-- A run finds a warning if a report does. No threshold and no other finding hides it. -/
theorem findings_warn (rated : ∀ report ∈ reports, ∀ diagnostic ∈ report.analysis.diagnostics,
    diagnostic.Rated) :
    (∃ diagnostic ∈ findings settings reports, diagnostic.severity = .warning) ↔
      ∃ report ∈ reports, ∃ diagnostic ∈ report.analysis.diagnostics,
        diagnostic.severity = .warning := by
  constructor
  · rintro ⟨diagnostic, member, warns⟩
    have given := (List.mem_filter.mp (Diagnostic.of_mem_sortAndDedup member)).1
    obtain ⟨report, inReports, inReport⟩ := List.mem_flatMap.mp given
    exact ⟨report, inReports, diagnostic, inReport, warns⟩
  · rintro ⟨report, inReports, diagnostic, inReport, warns⟩
    have given : diagnostic ∈ (reports.flatMap fun report => report.analysis.diagnostics).filter
        fun diagnostic => diagnostic.severity.atLeast settings.severity := by
      refine List.mem_filter.mpr ⟨List.mem_flatMap.mpr ⟨report, inReports, inReport⟩, ?_⟩
      rw [warns]
      rfl
    obtain ⟨kept, member, same⟩ := Diagnostic.rank_sortAndDedup given
    have source := (List.mem_filter.mp (Diagnostic.of_mem_sortAndDedup member)).1
    obtain ⟨other, inOthers, inOther⟩ := List.mem_flatMap.mp source
    refine ⟨kept, member, ?_⟩
    rw [← (rated report inReports diagnostic inReport).severity_eq (rated other inOthers kept inOther)
      same, warns]

/-- The limit leaves a warning if it is greater than the number of hints before the first one. -/
theorem take_warns {found : List Diagnostic} {limit : Nat} :
    (∃ diagnostic ∈ found.take limit, diagnostic.severity = .warning) ↔
      (∃ diagnostic ∈ found, diagnostic.severity = .warning) ∧ leadingHints found < limit := by
  induction found generalizing limit with
  | nil => simp
  | cons first rest ih =>
      cases limit with
      | zero => simp
      | succ limit =>
          cases severity : first.severity with
          | warning => simp [leadingHints, severity]
          | hint => simpa [leadingHints, severity] using ih

/-- A limited report shows a warning if a report has one among those that are not dropped. -/
theorem limit_warns {found : List Diagnostic} :
    (∃ diagnostic ∈ limit settings found, diagnostic.severity = .warning) ↔
      (∃ diagnostic ∈ found, diagnostic.severity = .warning) ∧
        (settings.maxDiagnostics = 0 ∨ leadingHints found < settings.maxDiagnostics) := by
  unfold limit
  split
  · rename_i unlimited
    simp [unlimited]
  · rename_i limited
    rw [take_warns]
    simp [limited]

/-- The summary counts what the report shows. -/
theorem outcome_reaches : (outcome settings reports).summary.reaches .warning = true ↔
    ∃ diagnostic ∈ limit settings (findings settings reports), diagnostic.severity = .warning := by
  change decide (List.countP _ (limit settings (findings settings reports)) ≠ 0) = true ↔ _
  rw [decide_eq_true_eq, ← Nat.pos_iff_ne_zero, List.countP_pos_iff]
  simp

end Findings

end Run

/-- A check of inputs that can be loaded ends with the code of the run. -/
theorem Host.check_code {host : Host Id} {request : CheckRequest} {settings : Settings}
    {inputs : List Input} {outcome : Outcome}
    (configured : (host.findSettings host.folders).bind request.settings = .ok settings)
    (loaded : host.loadInputs request.inputs = .ok inputs)
    (ran : run inputs settings false = .ok outcome) :
    ∃ response, host.check request = .ok response ∧ response.code = outcome.code := by
  cases checked : host.check request with
  | error failure =>
      unfold Host.check at checked
      simp only [bind, pure, configured, loaded, ran] at checked
      cases checked
  | ok response =>
      unfold Host.check at checked
      simp only [bind, pure, configured, loaded, ran] at checked
      obtain rfl := Except.ok.inj checked
      exact ⟨_, rfl, rfl⟩

/-- The settings with another limit on diagnostics. -/
def Settings.limited (settings : Settings) (limit : Nat) : Settings :=
  { settings with maxDiagnostics := limit }

/-- A run of valid inputs ends with the code 1 if some method has a warning and the limit lets the
report come to its first warning, and else with the code 0. -/
theorem exit_code_of_warnings (inputs : List Input) (settings : Settings)
    (valid : ∀ input ∈ inputs, input.validate = .ok ()) :
    ∃ reports, Run.reports inputs settings.options false = .ok reports ∧ ∀ limit,
      ∃ outcome, run inputs (settings.limited limit) false = .ok outcome ∧
        (outcome.code = 0 ∨ outcome.code = 1) ∧
        (outcome.code = 1 ↔ Run.Warns inputs settings.options ∧
          (limit = 0 ∨ Run.leadingHints (Run.findings settings reports) < limit)) ∧
        (outcome.summary.reaches .warning = true ↔ outcome.code = 1) ∧
        ∀ (host : Host Id) (request : CheckRequest),
          (host.findSettings host.folders).bind request.settings = .ok (settings.limited limit) →
          host.loadInputs request.inputs = .ok inputs →
          ∃ response, host.check request = .ok response ∧ response.code = outcome.code := by
  obtain ⟨reports, answered, members⟩ := Run.reports_answer inputs settings.options
  refine ⟨reports, answered, fun limit => ?_⟩
  have ran : run inputs (settings.limited limit) false =
      .ok (Run.outcome (settings.limited limit) reports) := by
    have sameOptions : Run.reports inputs (settings.limited limit).options false = .ok reports :=
      answered
    simp only [run, bind, Except.bind, Run.validate_valid valid, sameOptions]
    rfl
  have rated : ∀ report ∈ reports, ∀ diagnostic ∈ report.analysis.diagnostics,
      diagnostic.Rated := by
    intro report inReports diagnostic inReport
    obtain ⟨entry, -, analyzed, -⟩ := (members report).mp inReports
    exact entry.2.analyze_rated analyzed inReport
  have warns : (∃ report ∈ reports, ∃ diagnostic ∈ report.analysis.diagnostics,
      diagnostic.severity = .warning) ↔ Run.Warns inputs settings.options := by
    constructor
    · rintro ⟨report, inReports, warning⟩
      obtain ⟨entry, listed, analyzed, -⟩ := (members report).mp inReports
      exact ⟨entry, listed, report.analysis, analyzed, warning⟩
    · rintro ⟨entry, listed, analysis, analyzed, warning⟩
      exact ⟨⟨entry.2.name, analysis⟩, (members _).mpr ⟨entry, listed, analyzed, rfl⟩, warning⟩
  have reaches : (Run.outcome (settings.limited limit) reports).summary.reaches .warning = true ↔
      Run.Warns inputs settings.options ∧
        (limit = 0 ∨ Run.leadingHints (Run.findings settings reports) < limit) := by
    rw [Run.outcome_reaches, Run.limit_warns, Run.findings_warn rated, warns]
    rfl
  have code : (Run.outcome (settings.limited limit) reports).code = 1 ↔
      (Run.outcome (settings.limited limit) reports).summary.reaches .warning = true := by
    unfold Outcome.code
    split <;> simp_all
  refine ⟨_, ran, ?_, code.trans reaches, code.symm, fun host request configured loaded => ?_⟩
  · unfold Outcome.code
    split
    · exact Or.inr rfl
    · exact Or.inl rfl
  · exact Host.check_code configured loaded ran

section Example

/-- A fallback for a variable that is never null, and then a call of a variable that may be null. -/
def hintFirst : Body where
  name := "M"
  span? := none
  thisType? := none
  parameters := [0, 1]
  returnType := .void
  locals := #[⟨"x", .named "C" [] .plain, false⟩, ⟨"y", .named "C" [] .nullable, false⟩]
  exprs := #[⟨.read 0, some (.named "C" [] .plain), .point "a.cs" 1 1⟩,
    ⟨.coalesce 0 0, some (.named "C" [] .plain), .point "a.cs" 1 1⟩,
    ⟨.read 1, some (.named "C" [] .nullable), .point "a.cs" 2 1⟩,
    ⟨.call (some 2) ⟨"Foo", "C.Foo()", some "C", [], [], .void⟩ [], some .void,
      .point "a.cs" 2 1⟩]
  stmts := #[⟨.evaluate 1, .none⟩, ⟨.evaluate 3, .none⟩, ⟨.block [0, 1], .none⟩]
  root := 2

def hintFirstInput : Input := ⟨.ofList [⟨"C", [], none⟩], [hintFirst]⟩

theorem hintFirst_exit_code : (∀ input ∈ [hintFirstInput], input.validate = .ok ()) ∧
    ∃ outcome, run [hintFirstInput] (Settings.default.limited 0) false = .ok outcome ∧
      (outcome.code = 1 ↔ Run.Warns [hintFirstInput] Settings.default.options) := by
  have valid : ∀ input ∈ [hintFirstInput], input.validate = .ok () := by
    intro input member
    obtain rfl := List.mem_singleton.mp member
    decide +kernel
  obtain ⟨reports, -, codes⟩ := exit_code_of_warnings [hintFirstInput] .default valid
  obtain ⟨outcome, ran, -, code, -⟩ := codes 0
  exact ⟨valid, outcome, ran, code.trans (and_iff_left (Or.inl rfl))⟩

/-- A limit that cuts the report off after the hint changes the code. -/
theorem hintFirst_limit_changes_code : hintFirstInput.validate = .ok () ∧
    (run [hintFirstInput] (Settings.default.limited 0) false).toOption.map Outcome.code = some 1 ∧
    (run [hintFirstInput] (Settings.default.limited 1) false).toOption.map Outcome.code =
      some 0 := by
  decide +kernel

end Example

end NullFlow
