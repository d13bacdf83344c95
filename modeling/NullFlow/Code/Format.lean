import NullFlow.Code.Symbol
import NullFlow.Ty.Format
/-!
The JSON form of what expressions refer to: ranges, locals, literals, operators, patterns, members
and signatures.
-/

namespace NullFlow

namespace Span

def toJson (span : Span) : Json := .object [
  ("file", .string span.file), ("start_line", .natural span.startLine),
  ("start_col", .natural span.startColumn), ("end_line", .natural span.endLine),
  ("end_col", .natural span.endColumn)]

def shape : Json.Shape := .record [
  ("file", .scalar), ("start_line", .scalar), ("start_col", .scalar), ("end_line", .scalar),
  ("end_col", .scalar)]

def ofJson (value : Json) : Json.Decoded Span := do
  let record ← value.asOuterRecord shape
  return {
    file := ← record.required "file" Json.asString
    startLine := ← record.required "start_line" Json.asWord
    startColumn := ← record.required "start_col" Json.asWord
    endLine := ← record.withDefault "end_line" 0 Json.asWord
    endColumn := ← record.withDefault "end_col" 0 Json.asWord }

end Span

namespace Local

def toJson (declared : Local) : Json := .object [
  ("name", .string declared.name), ("ty", declared.ty.toJson),
  ("implicit", .bool declared.implicit)]

def shape : Json.Shape := .record [("name", .scalar), ("ty", .whole), ("implicit", .scalar)]

def ofJson (value : Json) : Json.Decoded Local := do
  let record ← value.asOuterRecord shape
  return {
    name := ← record.required "name" Json.asString
    ty := ← record.required "ty" Ty.ofOuterJson
    implicit := ← record.withDefault "implicit" false Json.asBool }

end Local

namespace Literal

def toJson : Literal → Json
  | null => .string "null"
  | bool value => .object [("bool", .bool value)]
  | number text => .object [("number", .string text)]
  | string text => .object [("string", .string text)]

def ofJson (value : Json) : Json.Decoded Literal := do
  match ← value.asChoice with
  | ("null", content?) => do
      Json.asNothing content?
      return null
  | ("bool", some content) => return bool (← content.asBool)
  | ("number", some content) => return number (← content.asString)
  | ("string", some content) => return string (← content.asString)
  | _ => Json.misfit

end Literal

namespace Pattern

def toJson : Pattern → Json
  | null => .string "null"
  | type ty => .object [("type", ty.toJson)]

def ofJson (value : Json) : Json.Decoded Pattern := do
  match ← value.asChoice with
  | ("null", content?) => do
      Json.asNothing content?
      return null
  | ("type", some content) => return type (← Ty.ofJson content)
  | _ => Json.misfit

end Pattern

namespace BinaryOp

def name : BinaryOp → String
  | equal => "eq"
  | notEqual => "not_eq"
  | and => "and"
  | or => "or"
  | other => "other"

def all : List BinaryOp := [equal, notEqual, and, or, other]

def ofJson (value : Json) : Json.Decoded BinaryOp := do
  let name ← value.asName
  match all.find? fun operator => operator.name == name with
  | some operator => return operator
  | none => Json.misfit

end BinaryOp

namespace UnaryOp

def name : UnaryOp → String
  | not => "not"
  | other => "other"

def all : List UnaryOp := [not, other]

def ofJson (value : Json) : Json.Decoded UnaryOp := do
  let name ← value.asName
  match all.find? fun operator => operator.name == name with
  | some operator => return operator
  | none => Json.misfit

end UnaryOp

namespace Member

def toJson (member : Member) : Json := .object [
  ("name", .string member.name), ("owner", .optional .string member.owner?),
  ("ty", member.ty.toJson)]

def ofJson (value : Json) : Json.Decoded Member := do
  let record ← value.asRecord ["name", "owner", "ty"]
  return {
    name := ← record.required "name" Json.asString
    owner? := ← record.optional "owner" Json.asString
    ty := ← record.required "ty" Ty.ofJson }

end Member

namespace Parameter

def toJson (parameter : Parameter) : Json := .object [
  ("name", .string parameter.name), ("ty", parameter.ty.toJson)]

def ofJson (value : Json) : Json.Decoded Parameter := do
  let record ← value.asRecord ["name", "ty"]
  return {
    name := ← record.required "name" Json.asString
    ty := ← record.required "ty" Ty.ofJson }

end Parameter

namespace Signature

def toJson (signature : Signature) : Json := .object [
  ("name", .string signature.name), ("display", .string signature.display),
  ("owner", .optional .string signature.owner?),
  ("type_params", .list .string signature.typeParameters),
  ("params", .list Parameter.toJson signature.parameters),
  ("return_type", signature.returnType.toJson)]

def ofJson (value : Json) : Json.Decoded Signature := do
  let record ← value.asRecord
    ["name", "display", "owner", "type_params", "params", "return_type"]
  return {
    name := ← record.required "name" Json.asString
    display := ← record.required "display" Json.asString
    owner? := ← record.optional "owner" Json.asString
    typeParameters := ← record.withDefault "type_params" [] (Json.asList Json.asString)
    parameters := ← record.withDefault "params" [] (Json.asList Parameter.ofJson)
    returnType := ← record.required "return_type" Ty.ofJson }

end Signature

end NullFlow
