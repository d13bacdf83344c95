import NullFlow.Body.Format
import NullFlow.Body.Validity
/-!
The input of a run: the class declarations and the bodies of the methods to analyze.
-/

namespace NullFlow

structure Input where
  classes : ClassTable
  methods : List Body

/-- A defect together with the method whose body has it. -/
structure MethodDefect where
  method : String
  defect : Defect
deriving DecidableEq

def MethodDefect.message (fault : MethodDefect) : String :=
  s!"method `{fault.method}`: {fault.defect.message}"

/-- Why an input cannot be loaded. -/
inductive LoadError where
  | json (fault : JsonFault)
  | malformed (fault : MethodDefect)
deriving DecidableEq

namespace Input

def toJson (input : Input) : Json := .object [
  ("types", input.classes.toJson), ("methods", .list Body.toJson input.methods)]

def shape : Json.Shape := .record [
  ("types", .list ClassDeclaration.shape), ("methods", .list Body.shape)]

/-- Decodes an input. The bodies are not validated. -/
def ofJson (value : Json) : Json.Decoded Input := do
  let record ← value.asOuterRecord shape
  return {
    classes := ← record.withDefault "types" SortedMap.empty ClassTable.ofJson
    methods := ← record.required "methods" (Json.asList Body.ofJson) }

/-- Finds the first defect among the bodies. -/
def validate (input : Input) : Except MethodDefect Unit :=
  input.methods.forM fun body => body.validate.mapError (⟨body.name, ·⟩)

/-- Decodes and validates an input. -/
def ofValue (value : Json) : Except LoadError Input := do
  let input ← (ofJson value).mapError .json
  input.validate.mapError .malformed
  return input

/-- Reads and validates an input. -/
def load (text : String) : Except LoadError Input := do
  ofValue (← (Json.read shape text).mapError .json)

end Input
end NullFlow
