import NullFlow.SortedMap
import NullFlow.Ty.Basic
/-!
Class declarations, the view of a type as an instance of one of its base classes, and the
conversions between types. A conversion looks at nested marks alone: whether the value
itself may be null is a matter of its flow state.
-/

namespace NullFlow

structure ClassDeclaration where
  name : String
  typeParameters : List String
  base? : Option Ty

/-- The declared classes by name. -/
abbrev ClassTable := SortedMap String ClassDeclaration

/-- The answer to the question whether a value of one type converts to another. -/
inductive Conversion where
  | ok
  /-- The types fit, and a nested mark differs. -/
  | losesNullability
  | incompatible
deriving DecidableEq

/-- The worse of two answers. -/
def Conversion.worst : Conversion → Conversion → Conversion
  | .ok, answer => answer
  | answer, .ok => answer
  | .losesNullability, answer => answer
  | .incompatible, _ => .incompatible

namespace ClassTable

/-- Declares a class and replaces an earlier one of its name. -/
def declare (classes : ClassTable) (declaration : ClassDeclaration) : ClassTable :=
  SortedMap.insert classes declaration.name declaration

/-- The table of the declarations. The last of equal names counts. -/
def ofList (declarations : List ClassDeclaration) : ClassTable :=
  declarations.foldl declare SortedMap.empty

/-- The declarations in the order of their names. -/
def declarations (classes : ClassTable) : List ClassDeclaration := classes.entries.map Prod.snd

def typeParameters (classes : ClassTable) (owner : String) : List String :=
  ((SortedMap.get? classes owner).map ClassDeclaration.typeParameters).getD []

/-- The class that the type extends directly, with the type's arguments put in. -/
def base? (classes : ClassTable) : Ty → Option Ty
  | .named name arguments _ => do
      let declaration ← SortedMap.get? classes name
      let base ← declaration.base?
      return base.substitute (.ofLists declaration.typeParameters arguments)
  | _ => none

/-- Looks for the owner among the type and its next base classes. -/
def ancestor? (classes : ClassTable) (owner : String) : Nat → Ty → Option Ty
  | 0, _ => none
  | steps + 1, ty =>
      match ty with
      | .named name _ _ =>
          if name = owner then some ty
          else (classes.base? ty).bind (classes.ancestor? owner steps)
      | _ => none

/-- The number of classes that the search for a base class looks at. -/
def searchDepth : Nat := 32

/-- The type seen as an instance of the owner, which it may extend through other classes. -/
def instance? (classes : ClassTable) (ty : Ty) (owner : String) : Option Ty :=
  classes.ancestor? owner searchDepth ty

/-- Adds the check of a nested position to the answer for the types there. -/
def nested (answer : Conversion) (source target : Ty) : Conversion :=
  if source.mark.agrees target.mark then answer
  else answer.worst .losesNullability

mutual

/-- Whether a value of the source type converts to the target type. -/
def classify (classes : ClassTable) (source : Ty) : Ty → Conversion
  | .error .. => .ok
  | .dynamic _ => .ok
  | .null _ =>
      match source with
      | .error .. => .ok
      | .dynamic _ => .ok
      | .null _ => .ok
      | _ => .incompatible
  | .value name _ =>
      match source with
      | .error .. => .ok
      | .dynamic _ => .ok
      | .value other _ => if other = name then .ok else .incompatible
      | _ => .incompatible
  | .named name arguments _ =>
      match source with
      | .error .. => .ok
      | .dynamic _ => .ok
      | .null _ => .ok
      | .value .. => .incompatible
      | source =>
          if name = "object" && arguments.isEmpty then .ok
          else
            match source, classes.instance? source name with
            | .named .., some seen => classes.classifyAll seen.arguments arguments
            | _, _ => .incompatible
  | .array target _ =>
      match source with
      | .error .. => .ok
      | .dynamic _ => .ok
      | .null _ => .ok
      | .array element _ => nested (classes.classify element target) element target
      | _ => .incompatible
  | .parameter name _ =>
      match source with
      | .error .. => .ok
      | .dynamic _ => .ok
      | .null _ => .ok
      | .parameter other _ => if other = name then .ok else .incompatible
      | _ => .incompatible
  | .delegate parameters target _ =>
      match source with
      | .error .. => .ok
      | .dynamic _ => .ok
      | .null _ => .ok
      | .delegate others result _ =>
          (classes.classifyAll others parameters).worst
            (nested (classes.classify result target) result target)
      | _ => .incompatible

/-- The worst answer for the types at equal positions. Lists of unequal length are incompatible. -/
def classifyAll (classes : ClassTable) : List Ty → List Ty → Conversion
  | [], [] => .ok
  | source :: sources, target :: targets =>
      (nested (classes.classify source target) source target).worst
        (classes.classifyAll sources targets)
  | _, _ => .incompatible

end

/-- The first candidate that all candidates convert to. The null literal is no candidate. -/
def bestCommon? (classes : ClassTable) (candidates : List Ty) : Option Ty :=
  let typed := candidates.filter fun ty => !ty.isNull
  typed.find? fun candidate => typed.all fun other =>
    classes.classify other candidate != .incompatible

end ClassTable
end NullFlow
