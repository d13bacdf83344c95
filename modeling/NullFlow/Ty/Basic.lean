import NullFlow.FlowState
/-!
Marked type references. Every type carries its own mark, and so does every type argument
and every array element inside it. Type parameters stand for types, which take their places.
-/

namespace NullFlow

inductive Ty where
  /-- A class or interface with its type arguments. -/
  | named (name : String) (arguments : List Ty) (mark : Mark)
  /-- A value type. Its values are never null. -/
  | value (name : String) (mark : Mark)
  | array (element : Ty) (mark : Mark)
  | parameter (name : String) (mark : Mark)
  | delegate (parameters : List Ty) (result : Ty) (mark : Mark)
  | dynamic (mark : Mark)
  /-- The type of the null literal. -/
  | null (mark : Mark)
  /-- A type that could not be resolved. -/
  | error (name : String) (mark : Mark)

namespace Ty

/-- The mark of the type itself. -/
def mark : Ty → Mark
  | named _ _ mark => mark
  | value _ mark => mark
  | array _ mark => mark
  | parameter _ mark => mark
  | delegate _ _ mark => mark
  | dynamic mark => mark
  | null mark => mark
  | error _ mark => mark

/-- The type with another mark at the top. -/
def marked (mark : Mark) : Ty → Ty
  | named name arguments _ => named name arguments mark
  | value name _ => value name mark
  | array element _ => array element mark
  | parameter name _ => parameter name mark
  | delegate parameters result _ => delegate parameters result mark
  | dynamic _ => dynamic mark
  | null _ => null mark
  | error name _ => error name mark

def isValue : Ty → Bool
  | value .. => true
  | _ => false

def isVoid : Ty → Bool
  | value name _ => name == "void"
  | _ => false

def isError : Ty → Bool
  | error .. => true
  | _ => false

def isDynamic : Ty → Bool
  | dynamic _ => true
  | _ => false

def isNull : Ty → Bool
  | null _ => true
  | _ => false

/-- The type `object` accepts every reference type. -/
def isObject : Ty → Bool
  | named name [] _ => name == "object"
  | _ => false

def element? : Ty → Option Ty
  | array element _ => some element
  | _ => none

/-- The type arguments of a named type. Other types have none. -/
def arguments : Ty → List Ty
  | named _ arguments _ => arguments
  | _ => []

def name? : Ty → Option String
  | named name _ _ => some name
  | value name _ => some name
  | parameter name _ => some name
  | error name _ => some name
  | _ => none

/-- The type that a call of the delegate returns. -/
def result? : Ty → Option Ty
  | delegate _ result _ => some result
  | _ => none

mutual

/-- Some of the type parameters occurs in the type. -/
def mentionsAny (names : List String) : Ty → Bool
  | named _ arguments _ => anyMentions names arguments
  | array element _ => mentionsAny names element
  | parameter name _ => names.contains name
  | delegate parameters result _ => anyMentions names parameters || mentionsAny names result
  | value .. => false
  | dynamic _ => false
  | null _ => false
  | error .. => false

def anyMentions (names : List String) : List Ty → Bool
  | [] => false
  | ty :: rest => mentionsAny names ty || anyMentions names rest

end

/-- The type of which the top mark is oblivious. -/
def oblivious (ty : Ty) : Ty := ty.marked .oblivious

mutual

/-- The type in which the marks inside named types and arrays are oblivious. The mark
at the top stays, and delegates stay as they are. -/
def obliviousNested : Ty → Ty
  | named name arguments mark => named name (obliviousAll arguments) mark
  | array element mark => array (obliviousNested element).oblivious mark
  | value name mark => value name mark
  | parameter name mark => parameter name mark
  | delegate parameters result mark => delegate parameters result mark
  | dynamic mark => dynamic mark
  | null mark => null mark
  | error name mark => error name mark

def obliviousAll : List Ty → List Ty
  | [] => []
  | ty :: rest => (obliviousNested ty).oblivious :: obliviousAll rest

end

mutual

/-- The type as reports show it. Value types and the null type never show a question mark. -/
def text : Ty → String
  | named name [] mark => name ++ mark.text
  | named name (first :: rest) mark =>
      name ++ "<" ++ text first ++ textRest rest ++ ">" ++ mark.text
  | value name _ => name
  | array element mark => text element ++ "[]" ++ mark.text
  | parameter name mark => name ++ mark.text
  | delegate parameters result mark =>
      "Func<" ++ textParameters parameters ++ text result ++ ">" ++ mark.text
  | dynamic mark => "dynamic" ++ mark.text
  | null _ => "<null>"
  | error name mark => name ++ mark.text

/-- The types after the first one of an argument list. -/
def textRest : List Ty → String
  | [] => ""
  | ty :: rest => ", " ++ text ty ++ textRest rest

/-- The types before the result of a delegate. -/
def textParameters : List Ty → String
  | [] => ""
  | ty :: rest => text ty ++ ", " ++ textParameters rest

end

/-- The text of the type without its own question mark, for reports on nested marks. -/
def nestedText (ty : Ty) : String := (ty.marked .plain).text

/-- The state of a value of which only its declared type is known. Values of value types are never
null, and values of unresolved types may be. -/
def declaredState : Ty → FlowState
  | value .. => .notNull
  | error .. => .maybeNull
  | null _ => .maybeNull
  | named _ _ mark => .ofMark mark
  | array _ mark => .ofMark mark
  | parameter _ mark => .ofMark mark
  | delegate _ _ mark => .ofMark mark
  | dynamic mark => .ofMark mark

/-- The type of a value known to be in the state. Types that cannot tell states apart stay. -/
def withState (state : FlowState) : Ty → Ty
  | named name arguments _ => named name arguments state.mark
  | array element _ => array element state.mark
  | parameter name _ => parameter name state.mark
  | delegate parameters result _ => delegate parameters result state.mark
  | value name mark => value name mark
  | dynamic mark => dynamic mark
  | null mark => null mark
  | error name mark => error name mark

/-- A place of the type promises that it never holds null. Only references of known shape promise
this. -/
def isNonNullReference : Ty → Bool
  | named _ _ .plain => true
  | named _ _ .notNullable => true
  | array _ .plain => true
  | array _ .notNullable => true
  | delegate _ _ .plain => true
  | delegate _ _ .notNullable => true
  | _ => false

/-- A value in the state must not flow into a place of the type. -/
def rejects (target : Ty) (state : FlowState) : Bool :=
  state.isMaybeNull && target.isNonNullReference

def void : Ty := .value "void" .plain

end Ty

/-- The types that type parameters stand for. A parameter without a type stands for itself. -/
def Instantiation := String → Option Ty

namespace Instantiation

/-- Every parameter stands for itself. -/
def identity : Instantiation := fun _ => none

/-- The parameters stand for the types at the same positions. The last of equal names counts. -/
def ofLists (parameters : List String) (types : List Ty) : Instantiation := fun name =>
  (parameters.zip types).reverse.lookup name

/-- The second instantiation overrides the first. -/
def extend (first second : Instantiation) : Instantiation := fun name =>
  (second name).orElse fun _ => first name

end Instantiation

namespace Ty

mutual

/-- Replaces the type parameters. A parameter marked nullable stays nullable whatever it stands
for, and any other takes the mark of its type. -/
def substitute (types : Instantiation) : Ty → Ty
  | named name arguments mark => named name (substituteAll types arguments) mark
  | array element mark => array (substitute types element) mark
  | parameter name mark =>
      match types name with
      | none => parameter name mark
      | some bound => if mark = .nullable then bound.marked .nullable else bound
  | delegate parameters result mark =>
      delegate (substituteAll types parameters) (substitute types result) mark
  | value name mark => value name mark
  | dynamic mark => dynamic mark
  | null mark => null mark
  | error name mark => error name mark

def substituteAll (types : Instantiation) : List Ty → List Ty
  | [] => []
  | ty :: rest => substitute types ty :: substituteAll types rest

end

end Ty
end NullFlow
