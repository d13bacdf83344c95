import Mathlib.Data.List.Dedup
import NullFlow.Proofs.Body.Ranges
import NullFlow.Proofs.Diagnostic.Ranks
import NullFlow.Proofs.Run.Reports
/-!
The order of methods. A run shows the same keys and the same counts in whatever order it meets the
methods, and its counts are those of the distinct keys that the methods report.
-/

namespace NullFlow

namespace Run

/-- The bodies of the inputs, each with the classes of its input. -/
def bodies (inputs : List Input) : List (ClassTable × Body) :=
  inputs.flatMap fun input => input.methods.map fun body => (input.classes, body)

/-- The diagnostics at or above the threshold that the analyses of the methods report. -/
def reported (inputs : List Input) (settings : Settings) : List Diagnostic :=
  (((methods inputs).filterMap fun entry => entry.2.analyze entry.1 settings.options false).flatMap
    MethodAnalysis.diagnostics).filter fun diagnostic =>
      diagnostic.severity.atLeast settings.severity

/-- Inputs are valid if all their bodies are. -/
theorem valid_iff {inputs : List Input} : (∀ input ∈ inputs, input.validate = .ok ()) ↔
    ∀ entry ∈ bodies inputs, entry.2.validate = .ok () := by
  have each (input : Input) : input.validate = .ok () ↔
      ∀ body ∈ input.methods, body.validate = .ok () := by
    refine ⟨Input.body_valid, fun valid => ?_⟩
    unfold Input.validate
    generalize input.methods = bodies at valid
    induction bodies with
    | nil => rfl
    | cons body rest ih =>
        simp only [List.forM, valid body List.mem_cons_self]
        exact ih fun other member => valid other (List.mem_cons_of_mem _ member)
  simp only [bodies, List.mem_flatMap, List.mem_map, each]
  constructor
  · rintro valid entry ⟨input, listed, body, inInput, rfl⟩
    exact valid input listed body inInput
  · intro valid input listed body inInput
    exact valid (input.classes, body) ⟨input, listed, body, inInput, rfl⟩

/-- The methods of a run are those of its bodies. -/
theorem methods_eq_bodies (inputs : List Input) :
    methods inputs = (bodies inputs).filterMap fun entry => entry.2.method?.map (entry.1, ·) := by
  rw [methods, bodies, List.filterMap_flatMap]
  refine congrArg (List.flatMap · inputs) (funext fun input => ?_)
  rw [List.filterMap_map, List.map_filterMap]
  rfl

/-- Bodies in another order have the same methods in another order. -/
theorem methods_perm {inputs others : List Input} (permuted : (bodies inputs).Perm (bodies others)) :
    (methods inputs).Perm (methods others) := by
  rw [methods_eq_bodies, methods_eq_bodies]
  exact permuted.filterMap _

/-- Valid inputs have a method for every body. -/
theorem length_methods {inputs : List Input} (valid : ∀ input ∈ inputs, input.validate = .ok ()) :
    (methods inputs).length = (bodies inputs).length := by
  rw [valid_iff] at valid
  rw [methods_eq_bodies]
  generalize bodies inputs = entries at valid ⊢
  induction entries with
  | nil => rfl
  | cons entry rest ih =>
      obtain ⟨method, found⟩ := Body.method?_exists (valid entry List.mem_cons_self)
      rw [List.filterMap_cons_some (by rw [found]; rfl), List.length_cons, List.length_cons,
        ih fun other member => valid other (List.mem_cons_of_mem _ member)]

/-- Bodies in another order have the same findings in another order. -/
theorem reported_perm {inputs others : List Input}
    (permuted : (bodies inputs).Perm (bodies others)) (settings : Settings) :
    (reported inputs settings).Perm (reported others settings) :=
  (((methods_perm permuted).filterMap _).flatMap_right _).filter _

/-- Every finding of a run has the severity of its rule. -/
theorem reported_rated {inputs : List Input} {settings : Settings} :
    ∀ diagnostic ∈ reported inputs settings, diagnostic.Rated := by
  intro diagnostic member
  obtain ⟨analysis, analyzed, inAnalysis⟩ :=
    List.mem_flatMap.mp (List.mem_filter.mp member).1
  obtain ⟨entry, -, answer⟩ := List.mem_filterMap.mp analyzed
  exact entry.2.analyze_rated answer inAnalysis

/-- Bodies in another order have the same reports in another order. -/
theorem reports_perm {inputs others : List Input} {options : Options} {reports : List MethodReport}
    (permuted : (bodies inputs).Perm (bodies others))
    (answered : Run.reports inputs options false = .ok reports) :
    ∃ found, Run.reports others options false = .ok found ∧ reports.Perm found := by
  obtain ⟨found, pairs, same⟩ :=
    List.perm_comp_forall₂ (methods_perm permuted).symm (reports_ok_iff.mp answered)
  exact ⟨found, reports_ok_iff.mpr pairs, same.symm⟩

/-- A run puts together what the analyses of the methods report. -/
theorem findings_eq {inputs : List Input} {settings : Settings} {reports : List MethodReport}
    (answered : Run.reports inputs settings.options false = .ok reports) :
    findings settings reports = Diagnostic.sortAndDedup (reported inputs settings) := by
  have analyses : (methods inputs).filterMap
      (fun entry => entry.2.analyze entry.1 settings.options false) =
        reports.map MethodReport.analysis := by
    rw [reports_ok_iff] at answered
    generalize methods inputs = entries at answered ⊢
    induction answered with
    | nil => rfl
    | cons covered _ ih => simp [covered.1, ih]
  unfold reported
  rw [analyses, List.flatMap_map]
  rfl

section Counts

variable {first second : List Diagnostic}

/-- Reports with the same keys agree in their severities. -/
theorem severities_eq (ofFirst : ∀ diagnostic ∈ first, diagnostic.Rated)
    (ofSecond : ∀ diagnostic ∈ second, diagnostic.Rated)
    (same : first.map Diagnostic.sortKey = second.map Diagnostic.sortKey) :
    first.map Diagnostic.severity = second.map Diagnostic.severity := by
  induction first generalizing second with
  | nil =>
      rw [List.map_nil, eq_comm, List.map_eq_nil_iff] at same
      rw [same]
  | cons head rest ih =>
      cases second with
      | nil => cases same
      | cons other others =>
          simp only [List.map_cons, List.cons.injEq] at same ⊢
          obtain ⟨key, keys⟩ := same
          exact ⟨(ofFirst head List.mem_cons_self).severity_eq (ofSecond other List.mem_cons_self)
              (Diagnostic.order_eq_iff.mpr key),
            ih (fun _ member => ofFirst _ (List.mem_cons_of_mem _ member))
              (fun _ member => ofSecond _ (List.mem_cons_of_mem _ member)) keys⟩

/-- The number of findings of a severity depends on the severities alone. -/
theorem countP_severity (diagnostics : List Diagnostic) (severity : Severity) :
    (diagnostics.countP fun diagnostic => diagnostic.severity == severity) =
      (diagnostics.map Diagnostic.severity).count severity := by
  rw [List.count, List.countP_map]
  rfl

/-- Every diagnostic that is shown is counted as a warning or as a hint. -/
theorem total_ofDiagnostics (diagnostics : List Diagnostic) :
    (Summary.ofDiagnostics diagnostics).warnings + (Summary.ofDiagnostics diagnostics).hints =
      diagnostics.length := by
  change List.countP _ _ + List.countP _ _ = _
  induction diagnostics with
  | nil => rfl
  | cons head rest ih =>
      rw [List.countP_cons, List.countP_cons, List.length_cons]
      cases severity : head.severity <;> simp <;> omega

/-- A report has as many diagnostics as there are keys in what it is given. -/
theorem length_sortAndDedup (diagnostics : List Diagnostic) :
    (Diagnostic.sortAndDedup diagnostics).length =
      (diagnostics.map Diagnostic.sortKey).dedup.length := by
  have keys : ((Diagnostic.sortAndDedup diagnostics).map Diagnostic.sortKey).Perm
      (diagnostics.map Diagnostic.sortKey).dedup :=
    (List.perm_ext_iff_of_nodup (Diagnostic.ascending_sortAndDedup diagnostics).nodup_sortKeys
      (List.nodup_dedup _)).mpr fun key => by
        rw [Diagnostic.mem_sortKeys_iff, List.mem_dedup]
  rw [← keys.length_eq, List.length_map]

end Counts

/-- A limit adds nothing. -/
theorem length_limit_le (settings : Settings) (found : List Diagnostic) :
    (limit settings found).length ≤ found.length := by
  unfold limit
  split
  · exact le_rfl
  · exact List.length_take_le' _ _

/-- What a limited report shows was found. -/
theorem of_mem_limit {settings : Settings} {found : List Diagnostic} {diagnostic : Diagnostic}
    (shown : diagnostic ∈ limit settings found) : diagnostic ∈ found := by
  unfold limit at shown
  split at shown
  · exact shown
  · exact List.mem_of_mem_take shown

/-- Reports with the same keys are limited to the same keys. -/
theorem limit_sortKeys (settings : Settings) {first second : List Diagnostic}
    (same : first.map Diagnostic.sortKey = second.map Diagnostic.sortKey) :
    (limit settings first).map Diagnostic.sortKey =
      (limit settings second).map Diagnostic.sortKey := by
  unfold limit
  split
  · exact same
  · rw [List.map_take, List.map_take, same]

end Run

/-- A run shows the same keys and the same counts in whatever order the methods come. Each
diagnostic shown is a warning or a hint, and those shown and those cut off are as many as there are
keys among the diagnostics that the methods report. -/
theorem run_independent_of_method_order (inputs others : List Input) (settings : Settings)
    (valid : ∀ input ∈ inputs, input.validate = .ok ())
    (permuted : (Run.bodies inputs).Perm (Run.bodies others)) :
    ∃ before after, run inputs settings false = .ok before ∧ run others settings false = .ok after ∧
      before.diagnostics.map Diagnostic.sortKey = after.diagnostics.map Diagnostic.sortKey ∧
      before.summary.warnings = after.summary.warnings ∧
      before.summary.hints = after.summary.hints ∧
      before.summary.truncated = after.summary.truncated ∧
      before.summary.methods = after.summary.methods ∧
      before.summary.methods = (Run.bodies inputs).length ∧
      before.unconverged.Perm after.unconverged ∧
      before.summary.warnings + before.summary.hints = before.diagnostics.length ∧
      before.summary.warnings + before.summary.hints + before.summary.truncated =
        ((Run.reported inputs settings).map Diagnostic.sortKey).dedup.length := by
  have validOthers : ∀ input ∈ others, input.validate = .ok () := by
    rw [Run.valid_iff] at valid ⊢
    exact fun entry member => valid entry (permuted.mem_iff.mpr member)
  obtain ⟨reports, answered⟩ := Run.reports_exist inputs settings.options
  obtain ⟨found, answeredOthers, same⟩ := Run.reports_perm permuted answered
  have keys : (Run.findings settings reports).map Diagnostic.sortKey =
      (Run.findings settings found).map Diagnostic.sortKey := by
    rw [Run.findings_eq answered, Run.findings_eq answeredOthers]
    exact Diagnostic.sortKeys_perm (Run.reported_perm permuted settings)
  have shown := Run.limit_sortKeys settings keys
  have rated {inputs : List Input} {reports : List MethodReport}
      (answered : Run.reports inputs settings.options false = .ok reports) :
      ∀ diagnostic ∈ Run.limit settings (Run.findings settings reports), diagnostic.Rated := by
    intro diagnostic member
    rw [Run.findings_eq answered] at member
    exact Run.reported_rated diagnostic (Diagnostic.of_mem_sortAndDedup (Run.of_mem_limit member))
  have severities := Run.severities_eq (rated answered) (rated answeredOthers) shown
  have lengths := congrArg List.length shown
  have totals := congrArg List.length keys
  rw [List.length_map, List.length_map] at lengths totals
  refine ⟨Run.outcome settings reports, Run.outcome settings found, ?_, ?_, shown, ?_, ?_, ?_,
    same.length_eq, ?_, ?_, Run.total_ofDiagnostics _, ?_⟩
  · rw [Run.run_valid valid, answered]
    rfl
  · rw [Run.run_valid validOthers, answeredOthers]
    rfl
  · change List.countP _ _ = List.countP _ _
    rw [Run.countP_severity, Run.countP_severity, severities]
  · change List.countP _ _ = List.countP _ _
    rw [Run.countP_severity, Run.countP_severity, severities]
  · change List.length _ - List.length _ = List.length _ - List.length _
    rw [lengths, totals]
  · rw [← Run.length_methods valid]
    exact (List.Forall₂.length_eq (Run.reports_ok_iff.mp answered)).symm
  · exact (same.filter _).map _
  · have below := Run.length_limit_le settings (Run.findings settings reports)
    have counted := Run.total_ofDiagnostics (Run.limit settings (Run.findings settings reports))
    rw [← Run.length_sortAndDedup, ← Run.findings_eq answered]
    change (Summary.ofDiagnostics _).warnings + (Summary.ofDiagnostics _).hints +
      (List.length _ - List.length _) = _
    rw [counted]
    omega

section Example

/-- A method of the file that starts with a variable of the class that is null. -/
def nullAtStart (name className file : String) : Body where
  name
  span? := none
  thisType? := none
  parameters := []
  returnType := .void
  locals := #[⟨"x", .named className [] .plain, false⟩]
  exprs := #[⟨.literal .null, none, .point file 3 15⟩]
  stmts := #[⟨.declare 0 (some 0), .point file 3 9⟩, ⟨.block [0], .none⟩]
  root := 1

/-- Two methods of one program. -/
def together : List Input := [⟨.ofList [], [nullAtStart "A.Main" "Writer" "Program.cs",
  nullAtStart "B.Main" "Reader" "Program.cs"]⟩]

/-- The same methods, each in a program of its own, in the other order. -/
def apart : List Input := [⟨.ofList [], [nullAtStart "B.Main" "Reader" "Program.cs"]⟩,
  ⟨.ofList [], [nullAtStart "A.Main" "Writer" "Program.cs"]⟩]

theorem together_apart_alike : (∀ input ∈ together, input.validate = .ok ()) ∧
    (Run.bodies together).Perm (Run.bodies apart) ∧
    ∃ before after, run together .default false = .ok before ∧ run apart .default false = .ok after ∧
      before.diagnostics.map Diagnostic.sortKey = after.diagnostics.map Diagnostic.sortKey := by
  have valid : ∀ input ∈ together, input.validate = .ok () := by
    intro input member
    obtain rfl := List.mem_singleton.mp member
    decide +kernel
  have permuted : (Run.bodies together).Perm (Run.bodies apart) := List.Perm.swap _ _ _
  obtain ⟨before, after, ran, ranApart, keys, -⟩ :=
    run_independent_of_method_order together apart .default valid permuted
  exact ⟨valid, permuted, before, after, ran, ranApart, keys⟩

end Example

end NullFlow

/-!
What a run shows of the findings in its methods. Of several with one key it shows the first, so it
loses the others if they are not the same in all. Methods with disjoint ranges lose nothing.
-/

namespace NullFlow

namespace Run

variable {inputs : List Input} {settings : Settings}

/-- No expressions of different bodies show the same range. -/
def DisjointRanges (inputs : List Input) : Prop :=
  (bodies inputs).Pairwise fun first second => ∀ span other, first.2.HasRange span →
    second.2.HasRange other → span.shown ≠ other.shown

/-- The outcome shows every diagnostic that the methods report. -/
def Lossless (inputs : List Input) (settings : Settings) (outcome : Outcome) : Prop :=
  ∀ diagnostic ∈ reported inputs settings, diagnostic ∈ outcome.diagnostics

/-- The keys of the diagnostics that the methods report are distinct if the methods have disjoint
ranges. -/
theorem nodup_reported (disjoint : DisjointRanges inputs) :
    ((reported inputs settings).map Diagnostic.sortKey).Nodup := by
  refine List.pairwise_map.mpr (List.Pairwise.filter _ (List.pairwise_flatMap.mpr ⟨?_, ?_⟩))
  · intro analysis analyzed
    obtain ⟨entry, -, answer⟩ := List.mem_filterMap.mp analyzed
    rw [Method.diagnostics_of_analyze answer]
    exact List.pairwise_map.mp (Diagnostic.ascending_sortAndDedup _).nodup_sortKeys
  · rw [methods_eq_bodies, List.filterMap_filterMap]
    refine List.pairwise_filterMap.mpr (disjoint.imp ?_)
    rintro ⟨classes, body⟩ ⟨otherClasses, otherBody⟩ apart analysis analyzed other isOther
      diagnostic inAnalysis another inOther same
    obtain ⟨_, paired, answer⟩ := Option.bind_eq_some_iff.mp analyzed
    obtain ⟨method, found, rfl⟩ := Option.map_eq_some_iff.mp paired
    obtain ⟨_, paired, otherAnswer⟩ := Option.bind_eq_some_iff.mp isOther
    obtain ⟨otherMethod, otherFound, rfl⟩ := Option.map_eq_some_iff.mp paired
    obtain ⟨span, inBody, lies⟩ := Body.analyze_located found answer inAnalysis
    obtain ⟨otherSpan, inOtherBody, liesToo⟩ := Body.analyze_located otherFound otherAnswer inOther
    exact apart span otherSpan inBody inOtherBody
      (lies.symm.trans ((congrArg Prod.fst same).trans liesToo))

/-- Without a limit the report shows of every key the diagnostic that was reported first. -/
theorem mem_unlimited (unlimited : settings.maxDiagnostics = 0) {reports : List MethodReport}
    (answered : Run.reports inputs settings.options false = .ok reports) {diagnostic : Diagnostic} :
    diagnostic ∈ (outcome settings reports).diagnostics ↔
      diagnostic ∈ Diagnostic.sortAndDedup (reported inputs settings) := by
  change diagnostic ∈ limit settings (findings settings reports) ↔ _
  rw [limit, if_pos unlimited, findings_eq answered]

end Run

/-- A run without a limit shows of every key the diagnostic that was reported first. So it shows
nothing that was not reported, and something for every diagnostic that was. It loses none if those
that agree in their keys agree in all, and only then. Methods with disjoint ranges are enough. -/
theorem run_shows_first_of_each_key (inputs : List Input) (settings : Settings)
    (valid : ∀ input ∈ inputs, input.validate = .ok ()) (unlimited : settings.maxDiagnostics = 0) :
    ∃ outcome, run inputs settings false = .ok outcome ∧
      (∀ diagnostic, diagnostic ∈ outcome.diagnostics ↔
        (Run.reported inputs settings).find? (fun other => other.sortKey = diagnostic.sortKey) =
          some diagnostic) ∧
      (∀ diagnostic ∈ Run.reported inputs settings, ∃ shown ∈ outcome.diagnostics,
        shown.sortKey = diagnostic.sortKey ∧ shown.kind = diagnostic.kind ∧
          shown.severity = diagnostic.severity) ∧
      (Run.Lossless inputs settings outcome ↔ ∀ first ∈ Run.reported inputs settings,
        ∀ second ∈ Run.reported inputs settings, first.sortKey = second.sortKey → first = second) ∧
      (Run.DisjointRanges inputs → Run.Lossless inputs settings outcome) := by
  obtain ⟨reports, answered⟩ := Run.reports_exist inputs settings.options
  have shows (diagnostic : Diagnostic) :
      diagnostic ∈ (Run.outcome settings reports).diagnostics ↔
        diagnostic ∈ Diagnostic.sortAndDedup (Run.reported inputs settings) :=
    Run.mem_unlimited unlimited answered
  have lossless : Run.Lossless inputs settings (Run.outcome settings reports) ↔
      ∀ first ∈ Run.reported inputs settings, ∀ second ∈ Run.reported inputs settings,
        first.sortKey = second.sortKey → first = second := by
    unfold Run.Lossless
    simp only [shows]
    constructor
    · intro complete first isFirst second isSecond same
      exact (Diagnostic.ascending_sortAndDedup _).eq_of_order (complete first isFirst)
        (complete second isSecond) (Diagnostic.order_eq_iff.mpr same)
    · intro distinct diagnostic member
      obtain ⟨kept, shown, same⟩ := Diagnostic.rank_sortAndDedup member
      rw [distinct diagnostic member kept (Diagnostic.of_mem_sortAndDedup shown)
        (Diagnostic.order_eq_iff.mp same)]
      exact shown
  refine ⟨_, by rw [Run.run_valid valid, answered]; rfl, fun diagnostic => ?_,
    fun diagnostic member => ?_, lossless, fun disjoint => lossless.mpr ?_⟩
  · rw [shows, Diagnostic.mem_sortAndDedup_iff, Diagnostic.sharesRank_eq]
  · obtain ⟨shown, inReport, same⟩ := Diagnostic.rank_sortAndDedup member
    have ratedShown := Run.reported_rated shown (Diagnostic.of_mem_sortAndDedup inReport)
    exact ⟨shown, (shows shown).mpr inReport, (Diagnostic.order_eq_iff.mp same).symm,
      (Diagnostic.kind_eq_of_order same).symm,
      ((Run.reported_rated diagnostic member).severity_eq ratedShown same).symm⟩
  · intro first isFirst second isSecond same
    exact List.inj_on_of_nodup_map (Run.nodup_reported disjoint) isFirst isSecond same

section Example

/-- Two methods in files of their own. -/
def inTwoFiles : List Input := [⟨.ofList [], [nullAtStart "A.Main" "Writer" "A.cs",
  nullAtStart "B.Main" "Reader" "B.cs"]⟩]

theorem inTwoFiles_lossless : (∀ input ∈ inTwoFiles, input.validate = .ok ()) ∧
    Settings.default.maxDiagnostics = 0 ∧ Run.DisjointRanges inTwoFiles ∧
    ∃ outcome, run inTwoFiles .default false = .ok outcome ∧
      Run.Lossless inTwoFiles .default outcome := by
  have valid : ∀ input ∈ inTwoFiles, input.validate = .ok () := by
    intro input member
    obtain rfl := List.mem_singleton.mp member
    decide +kernel
  have disjoint : Run.DisjointRanges inTwoFiles := by
    refine List.pairwise_pair.mpr ?_
    rintro _ _ ⟨first, isFirst, rfl⟩ ⟨second, isSecond, rfl⟩
    obtain rfl := Array.mem_singleton.mp isFirst
    obtain rfl := Array.mem_singleton.mp isSecond
    decide
  obtain ⟨outcome, ran, -, -, -, lossless⟩ := run_shows_first_of_each_key _ .default valid rfl
  exact ⟨valid, rfl, disjoint, outcome, ran, lossless disjoint⟩

/-- Two programs, each with a file of the same name. -/
def sameFileName : List Input := [⟨.ofList [], [nullAtStart "A.Main" "Writer" "Program.cs"]⟩,
  ⟨.ofList [], [nullAtStart "B.Main" "Reader" "Program.cs"]⟩]

/-- The second of two programs loses its only finding to the first, though not even the methods
agree. -/
theorem sameFileName_loses_finding : (∀ input ∈ sameFileName, input.validate = .ok ()) ∧
    ∃ outcome, run sameFileName .default false = .ok outcome ∧
      ∃ lost ∈ Run.reported sameFileName .default, lost.method? = some "B.Main" ∧
        lost ∉ outcome.diagnostics := by
  have checked : ((run sameFileName .default false).toOption.any fun outcome =>
      (Run.reported sameFileName .default).any fun lost =>
        decide (lost.method? = some "B.Main" ∧ lost ∉ outcome.diagnostics)) = true := by
    decide +kernel
  refine ⟨by decide +kernel, ?_⟩
  cases ran : run sameFileName .default false with
  | error fault =>
      rw [ran] at checked
      cases checked
  | ok outcome =>
      rw [ran] at checked
      obtain ⟨lost, member, isLost⟩ := List.any_eq_true.mp checked
      exact ⟨outcome, rfl, lost, member, of_decide_eq_true isLost⟩

end Example

end NullFlow
