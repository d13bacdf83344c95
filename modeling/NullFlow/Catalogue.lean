import NullFlow.Diagnostic.Basic
import NullFlow.Json.Basic
/-!
The catalogue of the rules, with what each one means and an example of code that breaks it.
-/

namespace NullFlow

structure Rule where
  kind : DiagnosticKind
  description : String
  /-- The lines of code that breaks the rule. -/
  bad : List String
  /-- The lines of similar code that does not. -/
  good : List String

namespace Rule

def dereference : Rule where
  kind := .dereference
  description := "A value that may be null is dereferenced by a member access, a call or an " ++
    "element access. After the warning the value is treated as non-null."
  bad := ["var b = new[] \x7b a, null \x7d;", "b[0].ToString(); // b[0] may be null"]
  good := ["var b = new[] \x7b a, null \x7d;", "b[0]?.ToString();"]

def assignment : Rule where
  kind := .assignment
  description := "A value that may be null is stored into a local, field, property or array " ++
    "element whose declared type is non-nullable."
  bad := ["object[] a = new object[] \x7b null \x7d; // element is object, not object?"]
  good := ["object?[] a = new object?[] \x7b null \x7d;"]

def returnValue : Rule where
  kind := .returnValue
  description := "A value that may be null is returned from a method or lambda whose return " ++
    "type is non-nullable."
  bad := ["Func<object> f = () => \x7b if (b) return null; return new object(); \x7d;"]
  good := ["Func<object?> f = () => \x7b if (b) return null; return new object(); \x7d;"]

def argument : Rule where
  kind := .argument
  description := "A value that may be null is passed to a parameter whose type is " ++
    "non-nullable. Calls through a dynamic receiver or with a dynamic argument are not checked."
  bad := ["void F(object o) \x7b \x7d", "F(maybeNull);"]
  good := ["if (maybeNull != null) F(maybeNull);"]

def shapeMismatch : Rule where
  kind := .shapeMismatch
  description := "Nested nullability differs between source and target. Generic type " ++
    "arguments and array elements are invariant: C<object?> is not a C<object>, and object?[] " ++
    "is not an object[]."
  bad := ["C<object> a; C<object?> b;",
    "var c = new[] \x7b a, b \x7d; // b: C<object?> vs C<object>"]
  good := ["C<object?> a; C<object?> b;", "var c = new[] \x7b a, b \x7d;"]

def neverNull : Rule where
  kind := .neverNull
  description := "The left operand of `??` is never null at this point, so the right operand " ++
    "is never evaluated."
  bad := ["object x = new object();", "var y = x ?? fallback;"]
  good := ["var y = x;"]

/-- The rules in the order of their codes. -/
def all : List Rule := [dereference, assignment, returnValue, argument, shapeMismatch, neverNull]

def code (rule : Rule) : String := rule.kind.code

/-- The rule of a code. The case of letters does not matter. -/
def find? (code : String) : Option Rule :=
  all.find? fun rule => rule.code.toLower == code.toLower

/-- A block of code under its heading. -/
def textOfBlock (heading : String) (lines : List String) : String :=
  s!"\n{heading}:\n" ++ String.join (lines.map fun line => s!"  {line}\n")

/-- The explanation of the rule for readers. -/
def text (rule : Rule) : String :=
  s!"{rule.code}: {rule.kind.title} ({rule.kind.severity.text})\n\n{rule.description}\n" ++
    textOfBlock "Example" rule.bad ++ textOfBlock "Fix" rule.good

def toJson (rule : Rule) : Json := .object [
  ("code", .string rule.code), ("name", .string rule.kind.title),
  ("description", .string rule.description), ("severity", .string rule.kind.severity.text),
  ("example_bad", .string ("\n".intercalate rule.bad)),
  ("example_good", .string ("\n".intercalate rule.good))]

end Rule
end NullFlow
