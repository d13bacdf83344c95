import NullFlow.Body.Basic
import NullFlow.Code.Format
/-!
The JSON form of method bodies.
-/

namespace NullFlow

namespace Argument

def toJson (argument : Argument ExprId) : Json := .object [
  ("expr", .natural argument.value), ("name", .optional .string argument.name?)]

def ofJson (value : Json) : Json.Decoded (Argument ExprId) := do
  let record ← value.asRecord ["expr", "name"]
  return {
    value := ← record.required "expr" Json.asWord
    name? := ← record.optional "name" Json.asString }

end Argument

namespace Initializer

mutual

def toJson : Initializer ExprId → Json
  | value member expr => .object [
      ("member", member.toJson), ("value", .object [("expr", .natural expr)])]
  | nested member entries => .object [
      ("member", member.toJson), ("value", .object [("nested", .array (toJsonAll entries))])]

def toJsonAll : List (Initializer ExprId) → List Json
  | [] => []
  | entry :: rest => toJson entry :: toJsonAll rest

end

/-- Decodes an entry that nests at most to a depth. -/
def ofJsonTo : Nat → Json → Json.Decoded (Initializer ExprId)
  | 0, _ => Json.misfit
  | depth + 1, json => do
      let record ← json.asRecord ["member", "value"]
      let member ← record.required "member" Member.ofJson
      match ← record.required "value" Json.asChoice with
      | ("expr", some content) => return value member (← content.asWord)
      | ("nested", some content) => return nested member (← content.asList (ofJsonTo depth))
      | _ => Json.misfit

/-- Decodes an entry. Entries nest less deep than JSON does. -/
def ofJson : Json → Json.Decoded (Initializer ExprId) := ofJsonTo Json.Machine.nestingLimit

end Initializer

namespace LambdaBody

def toJson : LambdaBody ExprId StmtId → Json
  | expr value => .object [("expr", .natural value)]
  | block code => .object [("block", .natural code)]

def ofJson (value : Json) : Json.Decoded (LambdaBody ExprId StmtId) := do
  match ← value.asChoice with
  | ("expr", some content) => return expr (← content.asWord)
  | ("block", some content) => return block (← content.asWord)
  | _ => Json.misfit

end LambdaBody

namespace ArenaExpr

def kindToJson : ExprKind LocalId ExprId StmtId → Json
  | .read source => .tagged "local" [("local", .natural source)]
  | .this => .tagged "this" []
  | .literal value => .tagged "literal" [("value", value.toJson)]
  | .defaultValue => .tagged "default" []
  | .cast operand => .tagged "cast" [("operand", .natural operand)]
  | .member receiver? member => .tagged "member" [
      ("receiver", .optional .natural receiver?), ("member", member.toJson)]
  | .index receiver position => .tagged "index" [
      ("receiver", .natural receiver), ("index", .natural position)]
  | .call receiver? method arguments => .tagged "call" [
      ("receiver", .optional .natural receiver?), ("method", method.toJson),
      ("args", .list Argument.toJson arguments)]
  | .create constructor? arguments initializers => .tagged "object_creation" [
      ("constructor", .optional Signature.toJson constructor?),
      ("args", .list Argument.toJson arguments),
      ("initializers", .list Initializer.toJson initializers)]
  | .array element? items => .tagged "array_creation" [
      ("element", .optional Ty.toJson element?), ("initializers", .list .natural items)]
  | .conditional condition whenTrue whenFalse => .tagged "conditional" [
      ("condition", .natural condition), ("when_true", .natural whenTrue),
      ("when_false", .natural whenFalse)]
  | .coalesce left right => .tagged "coalesce" [
      ("left", .natural left), ("right", .natural right)]
  | .binary operator left right => .tagged "binary" [
      ("op", .string operator.name), ("left", .natural left), ("right", .natural right)]
  | .unary operator operand => .tagged "unary" [
      ("op", .string operator.name), ("operand", .natural operand)]
  | .test operand pattern => .tagged "is" [
      ("operand", .natural operand), ("pattern", pattern.toJson)]
  | .suppress operand => .tagged "suppress_null" [("operand", .natural operand)]
  | .assign target value => .tagged "assign" [
      ("target", .natural target), ("value", .natural value)]
  | .lambda parameters body => .tagged "lambda" [
      ("lambda", .object [
        ("params", .list .natural parameters), ("body", body.toJson)])]
  | .bad children => .tagged "bad" [("children", .list .natural children)]

def lambdaOfJson (value : Json) : Json.Decoded (ExprKind LocalId ExprId StmtId) := do
  let record ← value.asRecord ["params", "body"]
  return .lambda (← record.withDefault "params" [] (Json.asList Json.asWord))
    (← record.required "body" LambdaBody.ofJson)

/-- Decodes the kind of the name from its fields. -/
def kindOfFields (kind : String) (fields : List String → Json.Decoded Json.Record) :
    Json.Decoded (ExprKind LocalId ExprId StmtId) := do
  match kind with
  | "local" => do
      let record ← fields ["local"]
      return .read (← record.required "local" Json.asWord)
  | "this" => do
      let _ ← fields []
      return .this
  | "literal" => do
      let record ← fields ["value"]
      return .literal (← record.required "value" Literal.ofJson)
  | "default" => do
      let _ ← fields []
      return .defaultValue
  | "cast" => do
      let record ← fields ["operand"]
      return .cast (← record.required "operand" Json.asWord)
  | "member" => do
      let record ← fields ["receiver", "member"]
      return .member (← record.optional "receiver" Json.asWord)
        (← record.required "member" Member.ofJson)
  | "index" => do
      let record ← fields ["receiver", "index"]
      return .index (← record.required "receiver" Json.asWord)
        (← record.required "index" Json.asWord)
  | "call" => do
      let record ← fields ["receiver", "method", "args"]
      return .call (← record.optional "receiver" Json.asWord)
        (← record.required "method" Signature.ofJson)
        (← record.withDefault "args" [] (Json.asList Argument.ofJson))
  | "object_creation" => do
      let record ← fields ["constructor", "args", "initializers"]
      return .create (← record.optional "constructor" Signature.ofJson)
        (← record.withDefault "args" [] (Json.asList Argument.ofJson))
        (← record.withDefault "initializers" [] (Json.asList Initializer.ofJson))
  | "array_creation" => do
      let record ← fields ["element", "initializers"]
      return .array (← record.optional "element" Ty.ofJson)
        (← record.withDefault "initializers" [] (Json.asList Json.asWord))
  | "conditional" => do
      let record ← fields ["condition", "when_true", "when_false"]
      return .conditional (← record.required "condition" Json.asWord)
        (← record.required "when_true" Json.asWord) (← record.required "when_false" Json.asWord)
  | "coalesce" => do
      let record ← fields ["left", "right"]
      return .coalesce (← record.required "left" Json.asWord)
        (← record.required "right" Json.asWord)
  | "binary" => do
      let record ← fields ["op", "left", "right"]
      return .binary (← record.required "op" BinaryOp.ofJson)
        (← record.required "left" Json.asWord) (← record.required "right" Json.asWord)
  | "unary" => do
      let record ← fields ["op", "operand"]
      return .unary (← record.required "op" UnaryOp.ofJson)
        (← record.required "operand" Json.asWord)
  | "is" => do
      let record ← fields ["operand", "pattern"]
      return .test (← record.required "operand" Json.asWord)
        (← record.required "pattern" Pattern.ofJson)
  | "suppress_null" => do
      let record ← fields ["operand"]
      return .suppress (← record.required "operand" Json.asWord)
  | "assign" => do
      let record ← fields ["target", "value"]
      return .assign (← record.required "target" Json.asWord)
        (← record.required "value" Json.asWord)
  | "lambda" => do
      let record ← fields ["lambda"]
      record.required "lambda" lambdaOfJson
  | "bad" => do
      let record ← fields ["children"]
      return .bad (← record.withDefault "children" [] (Json.asList Json.asWord))
  | _ => Json.misfit

def toJson (expr : ArenaExpr) : Json := .object [
  ("kind", kindToJson expr.kind), ("ty", .optional Ty.toJson expr.ty?),
  ("span", expr.span.toJson)]

def shape : Json.Shape := .record [("kind", .whole), ("ty", .whole), ("span", Span.shape)]

def ofJson (value : Json) : Json.Decoded ArenaExpr := do
  let record ← value.asOuterRecord shape
  return {
    kind := ← record.required "kind" fun kind => kind.asTagged kindOfFields
    ty? := ← record.optional "ty" Ty.ofOuterJson
    span := ← record.withDefault "span" .none Span.ofJson }

end ArenaExpr

namespace Arm

def toJson (arm : Arm StmtId) : Json := .object [
  ("pattern", .optional Pattern.toJson arm.pattern?), ("body", .list .natural arm.body)]

def ofJson (value : Json) : Json.Decoded (Arm StmtId) := do
  let record ← value.asRecord ["pattern", "body"]
  return {
    pattern? := ← record.optional "pattern" Pattern.ofJson
    body := ← record.required "body" (Json.asList Json.asWord) }

end Arm

namespace Statement

def kindToJson : StmtKind → Json
  | .block stmts => .tagged "block" [("stmts", .list .natural stmts)]
  | .declare target value? => .tagged "local" [
      ("local", .natural target), ("init", .optional .natural value?)]
  | .evaluate expr => .tagged "expr" [("expr", .natural expr)]
  | .ifElse condition thenBranch elseBranch? => .tagged "if" [
      ("condition", .natural condition), ("then_branch", .natural thenBranch),
      ("else_branch", .optional .natural elseBranch?)]
  | .whileLoop condition body => .tagged "while" [
      ("condition", .natural condition), ("body", .natural body)]
  | .doWhile body condition => .tagged "do_while" [
      ("body", .natural body), ("condition", .natural condition)]
  | .forLoop init condition? updates body => .tagged "for" [
      ("init", .list .natural init), ("condition", .optional .natural condition?),
      ("update", .list .natural updates), ("body", .natural body)]
  | .switch scrutinee arms => .tagged "switch" [
      ("scrutinee", .natural scrutinee), ("arms", .list Arm.toJson arms)]
  | .breakOut => .tagged "break" []
  | .continueLoop => .tagged "continue" []
  | .returnValue value? => .tagged "return" [("value", .optional .natural value?)]
  | .throwValue value? => .tagged "throw" [("value", .optional .natural value?)]
  | .empty => .tagged "empty" []

/-- Decodes the kind of the name from its fields. -/
def kindOfFields (kind : String) (fields : List String → Json.Decoded Json.Record) :
    Json.Decoded StmtKind := do
  match kind with
  | "block" => do
      let record ← fields ["stmts"]
      return .block (← record.required "stmts" (Json.asList Json.asWord))
  | "local" => do
      let record ← fields ["local", "init"]
      return .declare (← record.required "local" Json.asWord)
        (← record.optional "init" Json.asWord)
  | "expr" => do
      let record ← fields ["expr"]
      return .evaluate (← record.required "expr" Json.asWord)
  | "if" => do
      let record ← fields ["condition", "then_branch", "else_branch"]
      return .ifElse (← record.required "condition" Json.asWord)
        (← record.required "then_branch" Json.asWord)
        (← record.optional "else_branch" Json.asWord)
  | "while" => do
      let record ← fields ["condition", "body"]
      return .whileLoop (← record.required "condition" Json.asWord)
        (← record.required "body" Json.asWord)
  | "do_while" => do
      let record ← fields ["body", "condition"]
      return .doWhile (← record.required "body" Json.asWord)
        (← record.required "condition" Json.asWord)
  | "for" => do
      let record ← fields ["init", "condition", "update", "body"]
      return .forLoop (← record.withDefault "init" [] (Json.asList Json.asWord))
        (← record.optional "condition" Json.asWord)
        (← record.withDefault "update" [] (Json.asList Json.asWord))
        (← record.required "body" Json.asWord)
  | "switch" => do
      let record ← fields ["scrutinee", "arms"]
      return .switch (← record.required "scrutinee" Json.asWord)
        (← record.required "arms" (Json.asList Arm.ofJson))
  | "break" => do
      let _ ← fields []
      return .breakOut
  | "continue" => do
      let _ ← fields []
      return .continueLoop
  | "return" => do
      let record ← fields ["value"]
      return .returnValue (← record.optional "value" Json.asWord)
  | "throw" => do
      let record ← fields ["value"]
      return .throwValue (← record.optional "value" Json.asWord)
  | "empty" => do
      let _ ← fields []
      return .empty
  | _ => Json.misfit

def toJson (stmt : Statement) : Json := .object [
  ("kind", kindToJson stmt.kind), ("span", stmt.span.toJson)]

def shape : Json.Shape := .record [("kind", .whole), ("span", Span.shape)]

def ofJson (value : Json) : Json.Decoded Statement := do
  let record ← value.asOuterRecord shape
  return {
    kind := ← record.required "kind" fun kind => kind.asTagged kindOfFields
    span := ← record.withDefault "span" .none Span.ofJson }

end Statement

namespace Body

def toJson (body : Body) : Json := .object [
  ("name", .string body.name), ("span", .optional Span.toJson body.span?),
  ("this_type", .optional Ty.toJson body.thisType?),
  ("params", .list .natural body.parameters), ("return_type", body.returnType.toJson),
  ("locals", .list Local.toJson body.locals.toList),
  ("exprs", .list ArenaExpr.toJson body.exprs.toList),
  ("stmts", .list Statement.toJson body.stmts.toList), ("root", .natural body.root)]

def shape : Json.Shape := .record [
  ("name", .scalar), ("span", Span.shape), ("this_type", .whole), ("params", .list .scalar),
  ("return_type", .whole), ("locals", .list Local.shape), ("exprs", .list ArenaExpr.shape),
  ("stmts", .list Statement.shape), ("root", .scalar)]

def ofJson (value : Json) : Json.Decoded Body := do
  let record ← value.asOuterRecord shape
  return {
    name := ← record.required "name" Json.asString
    span? := ← record.optional "span" Span.ofJson
    thisType? := ← record.optional "this_type" Ty.ofOuterJson
    parameters := ← record.withDefault "params" [] (Json.asList Json.asWord)
    returnType := ← record.required "return_type" Ty.ofOuterJson
    locals := ← record.withDefault "locals" #[] (Json.asArray Local.ofJson)
    exprs := ← record.required "exprs" (Json.asArray ArenaExpr.ofJson)
    stmts := ← record.required "stmts" (Json.asArray Statement.ofJson)
    root := ← record.required "root" Json.asWord }

end Body
end NullFlow
