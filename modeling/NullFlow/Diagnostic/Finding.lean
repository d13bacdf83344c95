import NullFlow.Diagnostic.Basic
/-!
The diagnostics of the six rules, each for a range of the source and the method around it.
-/

namespace NullFlow.Diagnostic

/-- A diagnostic of the kind that covers a range of the method. -/
def covering (kind : DiagnosticKind) (span : Span) (method explanation : String)
    (arguments : List String) : Diagnostic :=
  let placed := (ofKind kind).startingAt span.file span.startLine span.startColumn
  { placed.endingAt span.endLine span.endColumn with
    explanation, arguments, method? := some method }

def dereference (span : Span) (method : String) : Diagnostic :=
  covering .dereference span method
    s!"In method `{method}`, the receiver may be null when dereferenced" []

def assignment (span : Span) (method : String) (target : Ty) : Diagnostic :=
  covering .assignment span method
    s!"In method `{method}`, a possibly null value is assigned to non-nullable `{target.text}`" []

def returnValue (span : Span) (method : String) (target : Ty) : Diagnostic :=
  covering .returnValue span method
    s!"In method `{method}`, a possibly null value is returned as non-nullable `{target.text}`" []

def argument (span : Span) (method parameter callee : String) : Diagnostic :=
  covering .argument span method
    s!"In method `{method}`, argument for parameter `{parameter}` of `{callee}` may be null"
    [parameter, callee]

def shapeMismatch (span : Span) (method : String) (source target : Ty) : Diagnostic :=
  let found := source.nestedText
  let expected := target.nestedText
  covering .shapeMismatch span method
    s!"In method `{method}`, nullability of `{found}` does not match target `{expected}`"
    [found, expected]

def neverNull (span : Span) (method : String) : Diagnostic :=
  covering .neverNull span method
    s!"In method `{method}`, the left operand of `??` is never null so the right operand is unused"
    []

end NullFlow.Diagnostic
