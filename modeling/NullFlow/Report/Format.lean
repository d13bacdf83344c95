import NullFlow.Diagnostic.Format
import NullFlow.Report.Excerpt
import NullFlow.Report.Summary
/-!
The forms of reports. Readers get a drawing for every diagnostic and a count of the findings, and
machines get JSON.
-/

namespace NullFlow

namespace Report

/-- The line that stands for a drawing if there is no source to draw. -/
def bareLine (diagnostic : Diagnostic) : String :=
  let title := diagnostic.kind.title
  s!"{diagnostic.location.startText}: {diagnostic.severity.text} [{diagnostic.rule}] {title}: " ++
    diagnostic.explanation ++ "\n"

/-- The part of the report on one diagnostic. A file that is missing or empty has no source. -/
def part (colored : Bool) (source? : Option String) (diagnostic : Diagnostic) : String :=
  match (source?.getD "").toList with
  | [] => bareLine diagnostic
  | source => excerpt colored source diagnostic

/-- The report on the diagnostics. The function gives the sources of files. -/
def text (colored : Bool) (source? : String → Option String) (diagnostics : List Diagnostic) :
    String :=
  if diagnostics.isEmpty then "No issues found\n"
  else
    let summary := Summary.ofDiagnostics diagnostics
    let parts := diagnostics.map fun diagnostic =>
      part colored (source? diagnostic.location.file) diagnostic
    let count :=
      s!"\nFound {summary.total} issue(s): {summary.warnings} warning, {summary.hints} hint\n"
    "\n".intercalate (parts ++ [count])

end Report

namespace Summary

def toJson (summary : Summary) : Json := .object [
  ("warning", .natural summary.warnings), ("hint", .natural summary.hints),
  ("truncated", .natural summary.truncated), ("methods_analyzed", .natural summary.methods),
  ("analysis_time_ms", .natural summary.milliseconds)]

end Summary

namespace Report

def toJson (diagnostics : List Diagnostic) (summary : Summary) : Json := .object [
  ("diagnostics", .list Diagnostic.toJson diagnostics), ("summary", summary.toJson)]

/-- The report as JSON text for machines. -/
def json (diagnostics : List Diagnostic) (summary : Summary) : String :=
  (toJson diagnostics summary).pretty

end Report
end NullFlow
