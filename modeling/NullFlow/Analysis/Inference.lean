import NullFlow.ClassTable
/-!
Inference of the type arguments of a call from the types of its arguments. The nullability of an
inferred type is the join over all arguments that speak about it.
-/

namespace NullFlow

/-- Inferred types of type parameters, at most one for each. -/
abbrev Bindings := List (String × Ty)

namespace Bindings

def instantiation (bindings : Bindings) : Instantiation := fun name => bindings.lookup name

/-- Marks the type of a parameter nullable, if it has one. -/
def markNullable (name : String) (bindings : Bindings) : Bindings :=
  bindings.map fun (bound, ty) => (bound, if bound = name then ty.marked .nullable else ty)

/-- Binds a parameter to a type. A parameter that is bound keeps its type and takes over that the
new type is nullable. -/
def bind (name : String) (ty : Ty) (bindings : Bindings) : Bindings :=
  match bindings.lookup name with
  | none => bindings ++ [(name, ty)]
  | some _ => if ty.mark = .nullable then bindings.markNullable name else bindings

/-- Takes an argument for a parameter of plain type into account. The null literal has no shape to
bind, and a nullable parameter accepts null whatever its type argument is. -/
def observe (name : String) (mark : Mark) (argument : Ty) (bindings : Bindings) : Bindings :=
  match argument with
  | .null _ => bindings.markNullable name
  | .error .. => bindings.markNullable name
  | argument => bindings.bind name (if mark = .nullable then argument.marked .plain else argument)

section Infer

variable (classes : ClassTable) (names : List String)

mutual

/-- Matches the type of a parameter with the type of an argument. -/
def infer : Ty → Ty → Bindings → Bindings
  | .parameter name mark, argument, bindings =>
      if names.contains name then bindings.observe name mark argument else bindings
  | .named name arguments _, argument, bindings =>
      match arguments, classes.instance? argument name with
      | [], _ => bindings
      | arguments, some seen => inferAll arguments seen.arguments bindings
      | _, none => bindings
  | .array element _, argument, bindings =>
      match argument with
      | .array found _ => infer element found bindings
      | _ => bindings
  | .delegate _ result _, argument, bindings =>
      match argument with
      | .delegate _ found _ => infer result found bindings
      | _ => bindings
  | _, _, bindings => bindings

def inferAll : List Ty → List Ty → Bindings → Bindings
  | parameter :: parameters, argument :: arguments, bindings =>
      inferAll parameters arguments (infer parameter argument bindings)
  | _, _, bindings => bindings

end

end Infer

end Bindings
end NullFlow
