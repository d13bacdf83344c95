import NullFlow.Analysis.Check
import NullFlow.Analysis.Inference
import NullFlow.Analysis.Meaning
/-!
Calls and object creations. Lambdas are analyzed after the other arguments, so that the delegate
expected of a lambda shows what was inferred so far.
-/

namespace NullFlow

/-- An argument that was evaluated, with the parameter that it binds to. -/
structure Evaluated where
  value : Value
  parameter? : Option Parameter
  span : Span

section Arguments

variable (context : Context) (signature : Signature)

def Bindings.add (parameter argument : Ty) (bindings : Bindings) : Bindings :=
  bindings.infer context.classes signature.typeParameters parameter argument

/-- Evaluates the arguments that are no lambdas, from a position on. -/
def evaluateArguments : Nat → List (Argument Part) → Bindings → Store →
    Analysis (List Evaluated × Bindings × Store)
  | _, [], bindings, store => return ([], bindings, store)
  | position, argument :: rest, bindings, store =>
      match argument.value.lambda? with
      | some _ => evaluateArguments (position + 1) rest bindings store
      | none => do
          let (value, store) ← argument.value.value store
          let parameter? := signature.parameter? position argument.name?
          let bindings := match parameter?, value.ty? with
            | some parameter, some ty => bindings.add context signature parameter.ty ty
            | _, _ => bindings
          let (later, bindings, store) ← evaluateArguments (position + 1) rest bindings store
          return (⟨value, parameter?, argument.value.span⟩ :: later, bindings, store)

/-- Analyzes the arguments that are lambdas, from a position on. What they return is evidence for
the type arguments. -/
def evaluateLambdas (receiverTypes : Instantiation) : Nat → List (Argument Part) → Bindings →
    Analysis Bindings
  | _, [], bindings => return bindings
  | position, argument :: rest, bindings =>
      match argument.value.lambda? with
      | none => evaluateLambdas receiverTypes (position + 1) rest bindings
      | some analyze => do
          let parameter? := signature.parameter? position argument.name?
          let delegate? := match parameter? with
            | some parameter =>
                some ((parameter.ty.substitute receiverTypes).substitute bindings.instantiation)
            | none => argument.value.ty?
          let returned? ← analyze delegate?
          let result? := parameter?.bind fun parameter => parameter.ty.result?
          let bindings := match result?, returned?.bind Value.ty? with
            | some result, some ty => bindings.add context signature result ty
            | _, _ => bindings
          evaluateLambdas receiverTypes (position + 1) rest bindings

/-- Checks an evaluated argument against its parameter. -/
def checkArgument (types : Instantiation) (argument : Evaluated) : Analysis Unit :=
  match argument.parameter? with
  | none => return ()
  | some parameter =>
      context.checkConversion argument.value (parameter.ty.substitute types) argument.span
        (.argument parameter.name signature.display)

/-- Evaluates all arguments and checks them. The answer tells what the type parameters of the
receiver and of the call stand for. Calls that are resolved at run time are not checked. -/
def passArguments (arguments : List (Argument Part)) (receiverTypes : Instantiation)
    (dynamic : Bool) (store : Store) : Analysis (Instantiation × Store) := do
  let (evaluated, bindings, store) ← evaluateArguments context signature 0 arguments [] store
  let bindings ← evaluateLambdas context signature receiverTypes 0 arguments bindings
  let types := receiverTypes.extend bindings.instantiation
  if !dynamic then evaluated.forM (checkArgument context signature types)
  return (types, store)

end Arguments

/-- Some argument is resolved at run time. -/
def anyDynamic (arguments : List (Argument Part)) : Bool :=
  arguments.any fun argument => argument.value.ty?.any Ty.isDynamic

section Rules

variable (context : Context)

/-- The value of a call, by the type that the callee returns. If a type argument stays unknown, the
type that the front end gave the call is taken. -/
def callResult (signature : Signature) (ty? : Option Ty) (dynamic : Bool) (types : Instantiation) :
    Value :=
  let declared := signature.returnType.substitute types
  let ty :=
    if dynamic then ty?.getD (.dynamic .plain)
    else if declared.mentionsAny signature.typeParameters then ty?.getD declared
    else declared
  .loose ty.declaredState (some ty)

/-- Evaluates the receiver of a call and dereferences it. -/
def evaluateReceiver (receiver? : Option Part) (store : Store) :
    Analysis (Option Ty × Store) := do
  match receiver? with
  | none => return (none, store)
  | some receiver => do
      let (value, store) ← receiver.value store
      return (value.ty?, ← context.dereference value receiver.span store)

def callRule (ty? : Option Ty) (receiver? : Option Part) (signature : Signature)
    (arguments : List (Argument Part)) (store : Store) : Analysis (Value × Store) := do
  let (receiverTy?, store) ← evaluateReceiver context receiver? store
  let dynamic := receiverTy?.any Ty.isDynamic || anyDynamic arguments
  let receiverTypes := context.instanceTypes receiverTy? signature.owner?
  let (types, store) ← passArguments context signature arguments receiverTypes dynamic store
  return (callResult signature ty? dynamic types, store)

/-- Evaluates the entries of an object initializer below a path of members. -/
def seedMembers (owner? : Option Ty) (path : List (String × FlowState)) :
    List (Initializer Part) → Store → Analysis (List Seed × Store)
  | [], store => return ([], store)
  | .value member part :: rest, store => do
      let declared? := context.memberType? owner? member
      let declaredState := (declared?.map Ty.declaredState).getD .maybeNull
      let (value, store) ← part.value store
      if let some target := declared? then
        context.checkConversion value target part.span .assignment
      let (seeds, store) ← seedMembers owner? path rest store
      return (⟨path ++ [(member.name, declaredState)], value.state⟩ :: seeds, store)
  | .nested member entries :: rest, store => do
      let declared? := context.memberType? owner? member
      let declaredState := (declared?.map Ty.declaredState).getD .maybeNull
      let (inner, store) ←
        seedMembers declared? (path ++ [(member.name, declaredState)]) entries store
      let (seeds, store) ← seedMembers owner? path rest store
      return (inner ++ seeds, store)

/-- Passes the arguments of a constructor. Without a constructor they are only evaluated. -/
def construct (ty? : Option Ty) (constructor? : Option Signature)
    (arguments : List (Argument Part)) (store : Store) : Analysis Store := do
  match constructor? with
  | some signature => do
      let receiverTypes := context.instanceTypes ty? signature.owner?
      let (_, store) ←
        passArguments context signature arguments receiverTypes (anyDynamic arguments) store
      return store
  | none =>
      arguments.foldlM (fun store argument => Prod.snd <$> argument.value.value store) store

def createRule (ty? : Option Ty) (constructor? : Option Signature)
    (arguments : List (Argument Part)) (initializers : List (Initializer Part))
    (store : Store) : Analysis (Value × Store) := do
  let store ← construct context ty? constructor? arguments store
  let (seeds, store) ← seedMembers context ty? [] initializers store
  return (⟨.notNull, ty?.map (Ty.withState .notNull), none, seeds⟩, store)

end Rules
end NullFlow
