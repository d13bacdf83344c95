import NullFlow.Analysis.Value
import NullFlow.Diagnostic.Finding
/-!
The checks that produce diagnostics, and the types of members and calls as their receivers see
them.
-/

namespace NullFlow

/-- What a value flows into. -/
inductive Site where
  | assignment
  | returnValue
  | argument (parameter callee : String)

namespace Context

variable (context : Context)

/-- Reports the receiver of a dereference if it may be null. Afterwards it is not null. -/
def dereference (receiver : Value) (span : Span) (store : Store) : Analysis Store := do
  if !store.isReachable then return store
  let checkable := receiver.ty?.any fun ty => !(ty.isError || ty.isNull || ty.isValue)
  if receiver.state.isMaybeNull && checkable then
    Analysis.emit (.dereference span context.method)
  return store.assign receiver.slot? .notNull

/-- Reports a value of which the type has other marks inside than the target. -/
def checkShape (source target : Ty) (span : Span) : Analysis Unit := do
  if !source.isNull && context.classes.classify source target == .losesNullability then
    Analysis.emit (.shapeMismatch span context.method source target)

/-- Reports a value that must not flow into the target. Unresolved values are not checked. -/
def checkConversion (value : Value) (target : Ty) (span : Span) (site : Site) : Analysis Unit :=
  match value.ty? with
  | none => return ()
  | some (.error ..) => return ()
  | some source => do
      if target.rejects value.state then
        Analysis.emit <| match site with
          | .assignment => .assignment span context.method target
          | .returnValue => .returnValue span context.method target
          | .argument parameter callee => .argument span context.method parameter callee
      context.checkShape source target span

/-- Checks a returned value against the type that the innermost body expects. -/
def checkReturn (value : Value) (span : Span) : Analysis Unit := do
  match (← Analysis.frame).expected? with
  | some target => context.checkConversion value target span .returnValue
  | none => return ()

/-- What the type parameters of a class stand for in a receiver. -/
def instanceTypes (receiver? : Option Ty) (owner? : Option String) : Instantiation :=
  match receiver?, owner? with
  | some receiver, some owner =>
      match context.classes.instance? receiver owner with
      | some seen => .ofLists (context.classes.typeParameters owner) seen.arguments
      | none => .identity
  | _, _ => .identity

/-- The declared type of a member as its receiver sees it. It is unknown if it depends on a
receiver that is. -/
def memberType? (receiver? : Option Ty) (member : Member) : Option Ty :=
  match member.owner? with
  | none => some member.ty
  | some owner =>
      if !member.ty.mentionsAny (context.classes.typeParameters owner) then some member.ty
      else
        match receiver? with
        | none => none
        | some (.error ..) => none
        | some receiver =>
            some (member.ty.substitute (context.instanceTypes (some receiver) (some owner)))

/-- The type that two values have in common. -/
def commonType? : Option Ty → Option Ty → Option Ty
  | some first, some second => context.classes.bestCommon? [first, second]
  | some ty, none => if ty.isNull then none else some ty
  | none, some ty => if ty.isNull then none else some ty
  | none, none => none

end Context
end NullFlow
