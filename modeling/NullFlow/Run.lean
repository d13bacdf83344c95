import NullFlow.Analysis.Method
import NullFlow.Body.Tree
import NullFlow.Input
import NullFlow.Report.Summary
import NullFlow.Settings
/-!
A run: the analysis of all methods of several inputs, and one report on what it finds.
-/

namespace NullFlow

/-- Why a run has no outcome. -/
inductive RunError where
  | malformed (fault : MethodDefect)
  /-- The caller stopped the run while it analyzed the method. -/
  | cancelled (method : String)
deriving DecidableEq

def RunError.message : RunError → String
  | malformed fault => fault.message
  | cancelled method => s!"analysis of `{method}` was cancelled"

structure Outcome where
  diagnostics : List Diagnostic
  summary : Summary
  /-- The methods with slots that still changed at the limit of iterations. -/
  unconverged : List String

/-- The findings in one method. -/
structure MethodReport where
  method : String
  analysis : MethodAnalysis

namespace Run

/-- The methods of the inputs, each with the classes of its input. Inputs without defects lose no
method here, because all their bodies have trees. -/
def methods (inputs : List Input) : List (ClassTable × Method) :=
  inputs.flatMap fun input =>
    (input.methods.filterMap Body.method?).map fun method => (input.classes, method)

/-- Finds the first defect among the inputs. -/
def validate (inputs : List Input) : Except RunError Unit :=
  inputs.forM fun input => input.validate.mapError .malformed

/-- Analyzes every method on its own. -/
def reports (inputs : List Input) (options : Options) (stopRequested : Bool) :
    Except RunError (List MethodReport) :=
  (methods inputs).mapM fun (classes, method) =>
    match method.analyze classes options stopRequested with
    | some analysis => .ok ⟨method.name, analysis⟩
    | none => .error (.cancelled method.name)

/-- The findings of the reports that reach the threshold, in the order of reports. -/
def findings (settings : Settings) (reports : List MethodReport) : List Diagnostic :=
  Diagnostic.sortAndDedup <| (reports.flatMap fun report => report.analysis.diagnostics).filter
    fun diagnostic => diagnostic.severity.atLeast settings.severity

/-- The findings up to a limit. The limit zero means none. -/
def limit (settings : Settings) (findings : List Diagnostic) : List Diagnostic :=
  if settings.maxDiagnostics = 0 then findings else findings.take settings.maxDiagnostics

/-- Puts the reports on all methods together. -/
def outcome (settings : Settings) (reports : List MethodReport) : Outcome :=
  let found := findings settings reports
  let shown := limit settings found
  {
    diagnostics := shown
    summary := { Summary.ofDiagnostics shown with
      truncated := found.length - shown.length
      methods := reports.length }
    unconverged := (reports.filter fun report => !report.analysis.converged).map
      MethodReport.method }

end Run

/-- Analyzes inputs. No method is analyzed if one of the inputs has a defect. Nobody touches the
token during the run. -/
def run (inputs : List Input) (settings : Settings) (stopRequested : Bool) :
    Except RunError Outcome := do
  Run.validate inputs
  return Run.outcome settings (← Run.reports inputs settings.options stopRequested)

end NullFlow
