import NullFlow.Analysis.Check
/-!
Flat types, which have no inner positions, and the shapes of types, which leave the mark at the top
open. The analysis changes marks at the top alone, and the answers of a class table do not depend on
them.
-/

namespace NullFlow

namespace Ty

/-- The type has no inner positions of which the analysis tracks the marks. -/
def isFlat : Ty → Bool
  | named _ arguments _ => arguments.isEmpty
  | array .. => false
  | _ => true

mutual

/-- No type parameter occurs in the type. -/
def isClosed : Ty → Bool
  | named _ arguments _ => allClosed arguments
  | array element _ => isClosed element
  | parameter .. => false
  | delegate parameters result _ => allClosed parameters && isClosed result
  | value .. => true
  | dynamic _ => true
  | null _ => true
  | error .. => true

def allClosed : List Ty → Bool
  | [] => true
  | ty :: rest => isClosed ty && allClosed rest

end

/-- A class without type arguments, a value type or the type of the null literal. -/
def isBasic : Ty → Bool
  | named _ arguments _ => arguments.isEmpty
  | value .. => true
  | null _ => true
  | _ => false

/-- Basic types have no positions inside. -/
theorem isFlat_of_basic {ty : Ty} (basic : ty.isBasic = true) : ty.isFlat = true := by
  cases ty with
  | array element mark => cases basic
  | named name arguments mark => exact basic
  | _ => rfl

/-- Basic types name no parameters. -/
theorem isClosed_of_basic {ty : Ty} (basic : ty.isBasic = true) : ty.isClosed = true := by
  cases ty with
  | named name arguments mark =>
      obtain rfl := List.isEmpty_iff.mp basic
      rfl
  | value name mark => rfl
  | null mark => rfl
  | _ => cases basic

/-- The type without the mark at the top. -/
def shape (ty : Ty) : Ty := ty.marked .plain

section Marks

variable (ty : Ty)

/-- A state changes the mark of a type and not its shape. -/
@[simp] theorem shape_withState (state : FlowState) : (ty.withState state).shape = ty.shape := by
  cases ty <;> rfl

@[simp] theorem isNull_shape : ty.shape.isNull = ty.isNull := by
  cases ty <;> rfl

@[simp] theorem isError_shape : ty.shape.isError = ty.isError := by
  cases ty <;> rfl

@[simp] theorem isDynamic_shape : ty.shape.isDynamic = ty.isDynamic := by
  cases ty <;> rfl

@[simp] theorem isValue_shape : ty.shape.isValue = ty.isValue := by
  cases ty <;> rfl

@[simp] theorem isBasic_shape : ty.shape.isBasic = ty.isBasic := by
  cases ty <;> rfl

@[simp] theorem isBasic_withState (state : FlowState) :
    (ty.withState state).isBasic = ty.isBasic := by
  cases ty <;> rfl

@[simp] theorem isFlat_withState (state : FlowState) : (ty.withState state).isFlat = ty.isFlat := by
  cases ty <;> rfl

end Marks

/-- A test that does not look at states passes a type in every state or in none. -/
theorem all_map_withState {test : Ty → Bool}
    (kept : ∀ (ty : Ty) (state : FlowState), test (ty.withState state) = test ty) (ty? : Option Ty)
    (state : FlowState) : (ty?.map (withState state)).all test = ty?.all test := by
  cases ty? <;> simp [kept]

@[simp] theorem all_isFlat_map_withState (ty? : Option Ty) (state : FlowState) :
    (ty?.map (withState state)).all isFlat = ty?.all isFlat :=
  all_map_withState isFlat_withState ty? state

@[simp] theorem all_isBasic_map_withState (ty? : Option Ty) (state : FlowState) :
    (ty?.map (withState state)).all isBasic = ty?.all isBasic :=
  all_map_withState isBasic_withState ty? state

@[simp] theorem map_shape_map_withState (ty? : Option Ty) (state : FlowState) :
    (ty?.map (withState state)).map shape = ty?.map shape := by
  cases ty? <;> simp

theorem map_shape_orElse (first? second? : Option Ty) :
    (first?.orElse fun _ => second?).map shape =
      (first?.map shape).orElse fun _ => second?.map shape := by
  cases first? <;> rfl

/-- A flat type has nothing inside to erase. -/
theorem isFlat_obliviousNested {ty : Ty} (flat : ty.isFlat = true) :
    ty.obliviousNested = ty := by
  cases ty with
  | named name arguments mark =>
      obtain rfl := List.isEmpty_iff.mp flat
      rfl
  | array element mark => cases flat
  | _ => rfl

/-- Flat types are no arrays. -/
theorem element?_of_flat {ty : Ty} (flat : ty.isFlat = true) : ty.element? = none := by
  cases ty with
  | array element mark => cases flat
  | _ => rfl

/-- There is nothing to refine inside a flat type. -/
theorem refine_of_flat (table : SlotTable) (store : Store) (slot : SlotId) {ty : Ty}
    (flat : ty.isFlat = true) : ty.refine table store slot = ty := by
  cases ty with
  | named name arguments mark =>
      obtain rfl := List.isEmpty_iff.mp flat
      rfl
  | array element mark => cases flat
  | _ => rfl

mutual

/-- A closed type is its own instance. -/
theorem substitute_of_closed (types : Instantiation) : ∀ ty : Ty, ty.isClosed = true →
    ty.substitute types = ty
  | named name arguments mark, closed => by
      rw [substitute, substituteAll_of_closed types arguments closed]
  | array element mark, closed => by rw [substitute, substitute_of_closed types element closed]
  | parameter name mark, closed => by simp [isClosed] at closed
  | delegate parameters result mark, closed => by
      rw [isClosed, Bool.and_eq_true] at closed
      rw [substitute, substituteAll_of_closed types parameters closed.1,
        substitute_of_closed types result closed.2]
  | value .., _ => rfl
  | dynamic _, _ => rfl
  | null _, _ => rfl
  | error .., _ => rfl

theorem substituteAll_of_closed (types : Instantiation) : ∀ list : List Ty, allClosed list = true →
    substituteAll types list = list
  | [], _ => rfl
  | ty :: rest, closed => by
      rw [allClosed, Bool.and_eq_true] at closed
      rw [substituteAll, substitute_of_closed types ty closed.1,
        substituteAll_of_closed types rest closed.2]

end

mutual

/-- A closed type mentions no parameter. -/
theorem mentionsAny_of_closed (names : List String) : ∀ ty : Ty, ty.isClosed = true →
    ty.mentionsAny names = false
  | named name arguments mark, closed => anyMentions_of_closed names arguments closed
  | array element mark, closed => mentionsAny_of_closed names element closed
  | parameter name mark, closed => by simp [isClosed] at closed
  | delegate parameters result mark, closed => by
      rw [isClosed, Bool.and_eq_true] at closed
      rw [mentionsAny, anyMentions_of_closed names parameters closed.1,
        mentionsAny_of_closed names result closed.2]
      rfl
  | value .., _ => rfl
  | dynamic _, _ => rfl
  | null _, _ => rfl
  | error .., _ => rfl

theorem anyMentions_of_closed (names : List String) : ∀ list : List Ty, allClosed list = true →
    anyMentions names list = false
  | [], _ => rfl
  | ty :: rest, closed => by
      rw [allClosed, Bool.and_eq_true] at closed
      rw [anyMentions, mentionsAny_of_closed names ty closed.1,
        anyMentions_of_closed names rest closed.2]
      rfl

end

end Ty

namespace ClassTable

variable (classes : ClassTable)

/-- The base of a type does not depend on its own mark. -/
theorem base?_marked (ty : Ty) (mark : Mark) :
    classes.base? (ty.marked mark) = classes.base? ty := by
  cases ty <;> rfl

/-- The ancestors of a type have the same shapes whatever its own mark. -/
theorem ancestor?_marked (owner : String) (ty : Ty) (mark : Mark) (steps : Nat) :
    (classes.ancestor? owner steps (ty.marked mark)).map Ty.shape =
      (classes.ancestor? owner steps ty).map Ty.shape := by
  cases steps with
  | zero => rfl
  | succ steps =>
      cases ty with
      | named name arguments old =>
          have sameBase := classes.base?_marked (.named name arguments old) mark
          simp only [Ty.marked] at sameBase
          simp only [ancestor?, Ty.marked, sameBase]
          split
          · rfl
          · rfl
      | _ => rfl

theorem arguments_shape (ty : Ty) : ty.shape.arguments = ty.arguments := by
  cases ty <;> rfl

/-- How a type looks as an instance of a class depends on its mark at the top alone in the mark at
the top. -/
theorem instance?_marked (ty : Ty) (mark : Mark) (owner : String) :
    (classes.instance? (ty.marked mark) owner).map Ty.shape =
      (classes.instance? ty owner).map Ty.shape := classes.ancestor?_marked owner ty mark _

/-- A conversion does not depend on the mark of the target as a whole. -/
theorem classify_target_marked (source target : Ty) (mark : Mark) :
    classes.classify source (target.marked mark) = classes.classify source target := by
  cases target <;> rfl

/-- A conversion does not depend on the mark of the source as a whole. -/
theorem classify_source_marked (source target : Ty) (mark : Mark) :
    classes.classify (source.marked mark) target = classes.classify source target := by
  cases target with
  | named name arguments old =>
      cases source with
      | named other others former =>
          have same := classes.instance?_marked (.named other others former) mark name
          simp only [Ty.marked] at same
          simp only [Ty.marked, classify]
          split
          · rfl
          · cases atMarked : classes.instance? (.named other others mark) name <;>
              cases atFormer : classes.instance? (.named other others former) name <;>
              rw [atMarked, atFormer] at same
            · cases same
            · cases same
            · have sameArguments := congrArg (Option.map Ty.arguments) same
              simp only [Option.map_some, arguments_shape, Option.some.injEq] at sameArguments
              simp only [sameArguments]
      | _ => rfl
  | _ => cases source <;> rfl

/-- A conversion depends on the shapes of its types alone. -/
theorem classify_shape (source target : Ty) :
    classes.classify source.shape target.shape = classes.classify source target := by
  rw [Ty.shape, Ty.shape, classify_target_marked, classify_source_marked]

/-- A type without inner positions has no marks there that could differ. -/
theorem classify_basic {target : Ty} (basic : target.isBasic = true) (source : Ty) :
    classes.classify source target ≠ .losesNullability := by
  cases target with
  | named name arguments mark =>
      obtain rfl := List.isEmpty_iff.mp basic
      have noPositions : ∀ sources, classes.classifyAll sources [] ≠ .losesNullability := by
        intro sources
        cases sources <;> simp [classifyAll]
      simp only [classify]
      split <;> try simp
      split <;> try simp
      split
      · exact noPositions _
      · simp
  | value name mark =>
      simp only [classify]
      split <;> try simp
      split <;> simp
  | null mark =>
      simp only [classify]
      split <;> simp
  | _ => cases basic

/-- The shape of the common type is known from the shapes of the candidates. -/
theorem shape_bestCommon? (candidates : List Ty) :
    (classes.bestCommon? candidates).map Ty.shape =
      classes.bestCommon? (candidates.map Ty.shape) := by
  have sameNull : (fun ty => !ty.isNull) ∘ Ty.shape = fun ty => !ty.isNull := by
    funext ty
    simp
  simp only [bestCommon?, List.filter_map, sameNull, List.find?_map, List.all_map]
  congr 2
  funext candidate
  simp only [Function.comp_def, classify_shape]

end ClassTable

namespace Context

variable (context : Context)

/-- The shape of a common type depends on shapes alone. -/
theorem shape_commonType? (first? second? : Option Ty) :
    (context.commonType? first? second?).map Ty.shape =
      context.commonType? (first?.map Ty.shape) (second?.map Ty.shape) := by
  cases first? with
  | none =>
      cases second? with
      | none => rfl
      | some second =>
          simp only [commonType?, Option.map_none, Option.map_some, Ty.isNull_shape]
          split <;> rfl
  | some first =>
      cases second? with
      | none =>
          simp only [commonType?, Option.map_none, Option.map_some, Ty.isNull_shape]
          split <;> rfl
      | some second => exact context.classes.shape_bestCommon? [first, second]

/-- The common type of two values is the type of one of them. -/
theorem all_commonType? {test : Ty → Bool} {first? second? : Option Ty}
    (first : first?.all test = true) (second : second?.all test = true) :
    (context.commonType? first? second?).all test = true := by
  rw [Option.all_eq_true]
  intro common found
  cases first? with
  | none =>
      cases second? with
      | none => cases found
      | some ty =>
          simp only [commonType?] at found
          split at found
          · cases found
          · exact Option.some.inj found ▸ second
  | some ty =>
      cases second? with
      | none =>
          simp only [commonType?] at found
          split at found
          · cases found
          · exact Option.some.inj found ▸ first
      | some other =>
          have member := List.mem_filter.mp (List.mem_of_find?_eq_some found)
          rcases List.mem_cons.mp member.1 with rfl | later
          · exact first
          · exact List.mem_singleton.mp later ▸ second

/-- A closed member has its declared type under every receiver. -/
theorem memberType?_of_closed (receiver? : Option Ty) {member : Member}
    (closed : member.ty.isClosed = true) : context.memberType? receiver? member = some member.ty := by
  rw [memberType?]
  cases member.owner? with
  | none => rfl
  | some owner => simp [member.ty.mentionsAny_of_closed _ closed]

end Context
end NullFlow
