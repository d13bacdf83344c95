import NullFlow.Code.Symbol
/-!
Diagnostics: the findings of the analysis, with their codes, their severities and their order, and
the recorder of one analysis. The search for a solution visits code many times, so the recorder stays
mute until the solution is known.
-/

namespace NullFlow

/-- How much a finding matters. -/
inductive Severity where
  /-- Advice, such as a fallback that is never used. -/
  | hint
  /-- A possible null reference at run time. -/
  | warning
deriving DecidableEq

namespace Severity

/-- The severity reaches the threshold. -/
def atLeast : Severity → Severity → Bool
  | .warning, _ => true
  | .hint, .hint => true
  | .hint, .warning => false

def text : Severity → String
  | .hint => "hint"
  | .warning => "warning"

end Severity

inductive DiagnosticKind where
  /-- A value that may be null is dereferenced. -/
  | dereference
  /-- A value that may be null flows into a place that must not hold null. -/
  | assignment
  /-- A value that may be null is returned where the type forbids it. -/
  | returnValue
  /-- A value that may be null is passed where the type forbids it. -/
  | argument
  /-- Marks inside the types of a source and a target differ. -/
  | shapeMismatch
  /-- The left side of a fallback is never null. -/
  | neverNull
deriving DecidableEq

namespace DiagnosticKind

def all : List DiagnosticKind :=
  [dereference, assignment, returnValue, argument, shapeMismatch, neverNull]

def code : DiagnosticKind → String
  | dereference => "NUL001"
  | assignment => "NUL002"
  | returnValue => "NUL003"
  | argument => "NUL004"
  | shapeMismatch => "NUL005"
  | neverNull => "NUL006"

def title : DiagnosticKind → String
  | dereference => "dereference of a possibly null value"
  | assignment => "possible null reference assignment"
  | returnValue => "possible null reference return"
  | argument => "possible null reference argument"
  | shapeMismatch => "nullability of reference types does not match"
  | neverNull => "expression is probably never null"

def severity : DiagnosticKind → Severity
  | neverNull => .hint
  | _ => .warning

end DiagnosticKind

structure Diagnostic where
  kind : DiagnosticKind
  severity : Severity
  explanation : String
  arguments : List String
  location : Span
  method? : Option String
deriving DecidableEq

namespace Diagnostic

def rule (diagnostic : Diagnostic) : String := diagnostic.kind.code

/-- A name for the finding: its rule with its file and line. -/
def id (diagnostic : Diagnostic) : String :=
  s!"{diagnostic.rule}-{diagnostic.location.file}:{diagnostic.location.startLine}"

/-- A diagnostic of the kind that has no place yet. -/
def ofKind (kind : DiagnosticKind) : Diagnostic := ⟨kind, kind.severity, "", [], .none, none⟩

/-- Puts the diagnostic at a position. -/
def startingAt (diagnostic : Diagnostic) (file : String) (line column : Nat) : Diagnostic :=
  { diagnostic with location := .point file line column }

/-- Lets the range of the diagnostic end at a position, but on no line before its first. -/
def endingAt (diagnostic : Diagnostic) (line column : Nat) : Diagnostic :=
  let location := diagnostic.location
  { diagnostic with location :=
      { location with endLine := max line location.startLine, endColumn := column } }

/-- The order of reports: by position, then by rule and arguments. -/
def order : Diagnostic → Diagnostic → Ordering :=
  compareLex (compareOn fun diagnostic => diagnostic.location.file) <|
  compareLex (compareOn fun diagnostic => diagnostic.location.startLine) <|
  compareLex (compareOn fun diagnostic => diagnostic.location.startColumn) <|
  compareLex (compareOn fun diagnostic => diagnostic.location.endLine) <|
  compareLex (compareOn fun diagnostic => diagnostic.location.endColumn) <|
  compareLex (compareOn fun diagnostic => diagnostic.rule) <|
  compareOn fun diagnostic => diagnostic.arguments

/-- Puts a diagnostic at its place, unless one of equal rank is there already. -/
def place (diagnostic : Diagnostic) : List Diagnostic → List Diagnostic
  | [] => [diagnostic]
  | head :: rest =>
      match order diagnostic head with
      | .lt => diagnostic :: head :: rest
      | .eq => head :: rest
      | .gt => head :: place diagnostic rest

/-- The diagnostics in the order of reports. Of several with equal rank the first stays. -/
def sortAndDedup (diagnostics : List Diagnostic) : List Diagnostic :=
  diagnostics.foldl (fun placed diagnostic => place diagnostic placed) []

end Diagnostic

structure Recorder where
  muted : Bool
  reportHints : Bool
  items : List Diagnostic

namespace Recorder

def start (reportHints : Bool) : Recorder := ⟨false, reportHints, []⟩

/-- Keeps a diagnostic, unless the recorder is mute or hints are unwanted. -/
def emit (recorder : Recorder) (diagnostic : Diagnostic) : Recorder :=
  if recorder.muted || (diagnostic.severity == .hint && !recorder.reportHints) then recorder
  else { recorder with items := recorder.items ++ [diagnostic] }

/-- The recorded diagnostics in the order of reports. -/
def finish (recorder : Recorder) : List Diagnostic := Diagnostic.sortAndDedup recorder.items

end Recorder
end NullFlow
