import NullFlow.Proofs.Analysis.Framing
import NullFlow.Proofs.Body.Safety
import NullFlow.Run
/-!
The reports of a run. A run of valid inputs that nobody stops has a report on every method, and the
diagnostics in it have the severities of their rules.
-/

namespace NullFlow

namespace Run

theorem mapM_ok_iff {Item Result Fault : Type} {items : List Item}
    {body : Item → Except Fault Result} {results : List Result} :
    items.mapM body = .ok results ↔
      List.Forall₂ (fun item result => body item = .ok result) items results := by
  induction items generalizing results with
  | nil =>
      rw [List.mapM_nil, List.forall₂_nil_left_iff]
      exact ⟨fun same => (Except.ok.inj same).symm, fun same => congrArg Except.ok same.symm⟩
  | cons item rest ih =>
      rw [List.mapM_cons, List.forall₂_cons_left_iff]
      simp only [← ih]
      cases answered : body item with
      | error fault =>
          refine ⟨nofun, ?_⟩
          rintro ⟨_, _, impossible, -, -⟩
          cases impossible
      | ok first =>
          cases others : rest.mapM body with
          | error fault =>
              refine ⟨nofun, ?_⟩
              rintro ⟨_, _, -, impossible, -⟩
              cases impossible
          | ok found =>
              constructor
              · intro same
                exact ⟨first, found, rfl, rfl, (Except.ok.inj same).symm⟩
              · rintro ⟨_, _, isFirst, isFound, rfl⟩
                obtain rfl := Except.ok.inj isFirst
                obtain rfl := Except.ok.inj isFound
                rfl

/-- The report is on the method. -/
def Covers (options : Options) (stopRequested : Bool) (entry : ClassTable × Method)
    (report : MethodReport) : Prop :=
  entry.2.analyze entry.1 options stopRequested = some report.analysis ∧
    report.method = entry.2.name

theorem Covers.unique {options : Options} {stopRequested : Bool} {entry : ClassTable × Method}
    {first second : MethodReport} (isFirst : Covers options stopRequested entry first)
    (isSecond : Covers options stopRequested entry second) : second = first := by
  obtain ⟨name, analysis⟩ := first
  obtain ⟨otherName, otherAnalysis⟩ := second
  obtain ⟨analyzed, rfl⟩ := isFirst
  obtain ⟨alsoAnalyzed, rfl⟩ := isSecond
  obtain rfl := Option.some.inj (analyzed.symm.trans alsoAnalyzed)
  rfl

/-- The reports are on the methods, one on each. -/
theorem reports_ok_iff {inputs : List Input} {options : Options} {stopRequested : Bool}
    {reports : List MethodReport} : Run.reports inputs options stopRequested = .ok reports ↔
      List.Forall₂ (Covers options stopRequested) (methods inputs) reports := by
  rw [Run.reports, mapM_ok_iff]
  refine iff_of_eq (congrArg (List.Forall₂ · _ _) ?_)
  funext entry ⟨name, analysis⟩
  unfold Covers
  cases answered : entry.2.analyze entry.1 options stopRequested with
  | none => simp [answered]
  | some found => simp [answered, and_comm, eq_comm]

theorem reports_exist (inputs : List Input) (options : Options) :
    ∃ reports, Run.reports inputs options false = .ok reports := by
  simp only [reports_ok_iff]
  induction methods inputs with
  | nil => exact ⟨[], List.Forall₂.nil⟩
  | cons entry rest ih =>
      obtain ⟨analysis, answered⟩ := entry.2.analyze_answers entry.1 options
      obtain ⟨reports, others⟩ := ih
      exact ⟨⟨entry.2.name, analysis⟩ :: reports, List.Forall₂.cons ⟨answered, rfl⟩ others⟩

/-- The reports say what the analyses of the methods find. -/
theorem mem_reports_iff {inputs : List Input} {options : Options} {stopRequested : Bool}
    {reports : List MethodReport} (answered : Run.reports inputs options stopRequested = .ok reports)
    {report : MethodReport} :
    report ∈ reports ↔ ∃ entry ∈ methods inputs, Covers options stopRequested entry report := by
  rw [reports_ok_iff] at answered
  generalize methods inputs = entries at answered ⊢
  induction answered with
  | nil => simp
  | @cons entry first entries others covered _ ih =>
      have same : report = first ↔ Covers options stopRequested entry report := by
        constructor
        · rintro rfl
          exact covered
        · exact fun alsoCovered => covered.unique alsoCovered
      rw [List.mem_cons, ih, List.exists_mem_cons_iff, same]

/-- All methods of the inputs get a report. -/
theorem reports_answer (inputs : List Input) (options : Options) :
    ∃ reports, Run.reports inputs options false = .ok reports ∧ ∀ report, report ∈ reports ↔
      ∃ entry ∈ methods inputs, entry.2.analyze entry.1 options false = some report.analysis ∧
        report.method = entry.2.name := by
  obtain ⟨reports, answered⟩ := reports_exist inputs options
  exact ⟨reports, answered, fun report => mem_reports_iff answered⟩

theorem validate_valid {inputs : List Input} (valid : ∀ input ∈ inputs, input.validate = .ok ()) :
    validate inputs = .ok () := by
  unfold validate
  induction inputs with
  | nil => rfl
  | cons input rest ih =>
      simp only [List.forM, valid input List.mem_cons_self]
      exact ih fun other member => valid other (List.mem_cons_of_mem _ member)

/-- A run of valid inputs puts the reports on all methods together. -/
theorem run_valid {inputs : List Input} (valid : ∀ input ∈ inputs, input.validate = .ok ())
    (settings : Settings) (stopRequested : Bool) :
    run inputs settings stopRequested =
      (reports inputs settings.options stopRequested).map (outcome settings) := by
  unfold run
  rw [validate_valid valid]
  cases reports inputs settings.options stopRequested <;> rfl

/-- Every diagnostic of a report has the severity of its rule. -/
theorem reports_rated {inputs : List Input} {options : Options} {stopRequested : Bool}
    {reports : List MethodReport} (answered : Run.reports inputs options stopRequested = .ok reports) :
    ∀ report ∈ reports, ∀ diagnostic ∈ report.analysis.diagnostics, diagnostic.Rated := by
  intro report inReports diagnostic inReport
  obtain ⟨entry, -, analyzed, -⟩ := (mem_reports_iff answered).mp inReports
  exact entry.2.analyze_rated analyzed inReport

end Run

end NullFlow
