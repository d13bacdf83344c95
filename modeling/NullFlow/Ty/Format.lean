import NullFlow.ClassTable
import NullFlow.Json.Decode
/-!
The JSON form of types and class declarations.
-/

namespace NullFlow

namespace Mark

def name : Mark → String
  | plain => "not_annotated"
  | nullable => "nullable"
  | notNullable => "not_nullable"
  | oblivious => "oblivious"

def all : List Mark := [plain, nullable, notNullable, oblivious]

def toJson (mark : Mark) : Json := .string mark.name

def ofName (name : String) : Json.Decoded Mark :=
  match all.find? fun mark => mark.name == name with
  | some mark => .ok mark
  | none => Json.misfit

def ofJson (value : Json) : Json.Decoded Mark := do ofName (← value.asName)

/-- Decodes a mark that is expected while the text is read. What cannot begin a mark, or stands
where a mark has ended, counts as an error of the text. -/
def ofOuterJson : Json → Json.Decoded Mark
  | .string name => ofName name
  | .object ((name, content) :: rest) => do
      let mark ← ofName name
      match content, rest with
      | .null, [] => return mark
      | .null, _ => .error .syntaxError
      | _, _ => Json.misfit
  | _ => .error .syntaxError

end Mark

namespace FlowState

def name : FlowState → String
  | notNull => "not_null"
  | maybeNull => "maybe_null"

def toJson (state : FlowState) : Json := .string state.name

end FlowState

namespace Ty

mutual

def toJson : Ty → Json
  | named name arguments mark => .object [
      ("kind", .string "named"), ("name", .string name),
      ("args", .array (toJsonAll arguments)), ("annotation", mark.toJson)]
  | value name mark => .object [
      ("kind", .string "value"), ("name", .string name), ("annotation", mark.toJson)]
  | array element mark => .object [
      ("kind", .string "array"), ("element", toJson element), ("annotation", mark.toJson)]
  | parameter name mark => .object [
      ("kind", .string "type_param"), ("name", .string name), ("annotation", mark.toJson)]
  | delegate parameters result mark => .object [
      ("kind", .string "delegate"), ("params", .array (toJsonAll parameters)),
      ("ret", toJson result), ("annotation", mark.toJson)]
  | dynamic mark => .object [("kind", .string "dynamic"), ("annotation", mark.toJson)]
  | null mark => .object [("kind", .string "null"), ("annotation", mark.toJson)]
  | error name mark => .object [
      ("kind", .string "error"), ("name", .string name), ("annotation", mark.toJson)]

def toJsonAll : List Ty → List Json
  | [] => []
  | ty :: rest => toJson ty :: toJsonAll rest

end

/-- The names of the kinds of types. A kind may also be given by its position here. -/
def kinds : List String :=
  ["named", "value", "array", "type_param", "delegate", "dynamic", "null", "error"]

def kindOfJson : Json → Json.Decoded String
  | .string name => .ok name
  | .integer (.ofNat position) =>
      match kinds[position]? with
      | some name => .ok name
      | none => Json.misfit
  | _ => Json.misfit

/-- A type as an object with fields that depend on its kind. -/
def ofFields (decodeMark : Json → Json.Decoded Mark) (decode : Json → Json.Decoded Ty)
    (fields : List (String × Json)) : Json.Decoded Ty := do
  let record ← Json.objectRecord ["kind", "annotation"] fields
  let mark ← record.withDefault "annotation" .plain decodeMark
  match ← record.required "kind" kindOfJson with
  | "named" => do
      let record ← Json.objectRecord ["name", "args"] fields
      return named (← record.required "name" Json.asString)
        (← record.withDefault "args" [] (Json.asList decode)) mark
  | "value" => do
      let record ← Json.objectRecord ["name"] fields
      return value (← record.required "name" Json.asString) mark
  | "array" => do
      let record ← Json.objectRecord ["element"] fields
      return array (← record.required "element" decode) mark
  | "type_param" => do
      let record ← Json.objectRecord ["name"] fields
      return parameter (← record.required "name" Json.asString) mark
  | "delegate" => do
      let record ← Json.objectRecord ["params", "ret"] fields
      return delegate (← record.withDefault "params" [] (Json.asList decode))
        (← record.required "ret" decode) mark
  | "dynamic" => return dynamic mark
  | "null" => return null mark
  | "error" => do
      let record ← Json.objectRecord ["name"] fields
      return error (← record.required "name" Json.asString) mark
  | _ => Json.misfit

/-- Decodes a type that nests at most to a depth. -/
def ofJsonTo : Nat → Json → Json.Decoded Ty
  | 0, _ => Json.misfit
  | depth + 1, json =>
      match json with
      | .object fields => ofFields Mark.ofJson (ofJsonTo depth) fields
      | _ => Json.misfit

/-- Decodes a type. Types nest less deep than JSON does. -/
def ofJson : Json → Json.Decoded Ty := ofJsonTo Json.Machine.nestingLimit

/-- Decodes a type that stands in a record, and not in another type or in a kind. Its mark is
expected while the text is read. -/
def ofOuterJson : Json → Json.Decoded Ty
  | .object fields => ofFields Mark.ofOuterJson ofJson fields
  | _ => Json.misfit

end Ty

namespace ClassDeclaration

def toJson (declaration : ClassDeclaration) : Json := .object [
  ("name", .string declaration.name),
  ("type_params", .list .string declaration.typeParameters),
  ("base", .optional Ty.toJson declaration.base?)]

def shape : Json.Shape := .record [
  ("name", .scalar), ("type_params", .list .scalar), ("base", .whole)]

def ofJson (value : Json) : Json.Decoded ClassDeclaration := do
  let record ← value.asOuterRecord shape
  return {
    name := ← record.required "name" Json.asString
    typeParameters := ← record.withDefault "type_params" [] (Json.asList Json.asString)
    base? := ← record.optional "base" Ty.ofOuterJson }

end ClassDeclaration

namespace ClassTable

/-- The declarations in the order of their names. -/
def toJson (classes : ClassTable) : Json := .list ClassDeclaration.toJson classes.declarations

def ofJson (value : Json) : Json.Decoded ClassTable :=
  ofList <$> Json.asList ClassDeclaration.ofJson value

end ClassTable
end NullFlow
