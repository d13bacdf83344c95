import NullFlow.Diagnostic.Basic
/-!
The summary of a run: how many findings of each severity a report shows, and how many it drops.
-/

namespace NullFlow

structure Summary where
  warnings : Nat
  hints : Nat
  /-- The findings dropped because of a limit. -/
  truncated : Nat
  methods : Nat
  milliseconds : Nat
deriving DecidableEq

namespace Summary

/-- Counts the diagnostics of a report. -/
def ofDiagnostics (diagnostics : List Diagnostic) : Summary where
  warnings := diagnostics.countP fun diagnostic => diagnostic.severity == .warning
  hints := diagnostics.countP fun diagnostic => diagnostic.severity == .hint
  truncated := 0
  methods := 0
  milliseconds := 0

/-- The number of findings shown. -/
def total (summary : Summary) : Nat := summary.warnings + summary.hints

/-- Some finding shown reaches the severity. -/
def reaches (summary : Summary) : Severity → Bool
  | .hint => summary.total ≠ 0
  | .warning => summary.warnings ≠ 0

end Summary
end NullFlow
