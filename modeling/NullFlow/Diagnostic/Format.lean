import NullFlow.Diagnostic.Basic
import NullFlow.Json.Basic
/-!
The JSON form of diagnostics.
-/

namespace NullFlow

namespace DiagnosticKind

def name : DiagnosticKind → String
  | dereference => "dereference"
  | assignment => "assignment"
  | returnValue => "return"
  | argument => "argument"
  | shapeMismatch => "shape_mismatch"
  | neverNull => "never_null"

end DiagnosticKind

namespace Diagnostic

def locationToJson (location : Span) : Json := .object [
  ("file", .string location.file), ("line", .natural location.startLine),
  ("column", .natural location.startColumn), ("end_line", .natural location.endLine),
  ("end_column", .natural location.endColumn)]

/-- Arguments and method are left out if there are none. -/
def toJson (diagnostic : Diagnostic) : Json := .object <|
  [("id", .string diagnostic.id), ("rule", .string diagnostic.rule),
    ("kind", .string diagnostic.kind.name), ("severity", .string diagnostic.severity.text),
    ("title", .string diagnostic.kind.title), ("explanation", .string diagnostic.explanation)] ++
  (if diagnostic.arguments.isEmpty then []
    else [("arguments", .list .string diagnostic.arguments)]) ++
  [("location", locationToJson diagnostic.location)] ++
  match diagnostic.method? with
  | some method => [("method", .string method)]
  | none => []

end Diagnostic
end NullFlow
