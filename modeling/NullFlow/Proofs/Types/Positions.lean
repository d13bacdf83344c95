import NullFlow.Analysis.Value
/-!
Nested positions of types: type arguments and array elements at any depth. A type that is read from
a place has the marks there that the store records for the slots below the place.

A path to a position is a list of numbers. Its steps also tell type arguments from elements of arrays,
as the slots do. So types of different shapes can be compared at the positions that share a slot.
-/

namespace NullFlow

/-- A path from a type to a type inside it. A step is the number of a type argument, or zero for the
element of an array. -/
abbrev TyPath := List Nat

namespace Ty

/-- The type at the end of a path. -/
def at? : TyPath → Ty → Option Ty
  | [], ty => some ty
  | 0 :: path, .array element _ => at? path element
  | index :: path, .named _ arguments _ => arguments[index]?.bind (at? path)
  | _, _ => none

/-- Values of the type are told apart by their states, so that a state gives the type its mark. -/
def tellsStates : Ty → Bool
  | named .. => true
  | array .. => true
  | parameter .. => true
  | delegate .. => true
  | value .. => false
  | dynamic _ => false
  | null _ => false
  | error .. => false

/-- A state marks only those types that tell states. -/
theorem mark_withState (ty : Ty) (state : FlowState) :
    (ty.withState state).mark = if ty.tellsStates then state.mark else ty.mark := by
  cases ty <;> rfl

/-- A state says nothing of the types inside. -/
theorem at?_withState (ty : Ty) (state : FlowState) {path : TyPath} (nested : path ≠ []) :
    (ty.withState state).at? path = ty.at? path := by
  cases path with
  | nil => exact absurd rfl nested
  | cons index rest => cases ty <;> cases index <;> rfl

end Ty

/-- The slot of the position at the end of a path below a slot of the type. -/
def SlotTable.inner? (table : SlotTable) : TyPath → Ty → SlotId → Option SlotId
  | [], _, slot => some slot
  | 0 :: path, .array element _, slot =>
      (table.get? (.element slot)).bind (table.inner? path element)
  | index :: path, .named _ arguments _, slot => arguments[index]?.bind fun ty =>
      (table.get? (.typeArgument slot index)).bind (table.inner? path ty)
  | _, _, _ => none

namespace Ty

variable (table : SlotTable) (store : Store)

/-- Observing a slot changes the mark of its own position and none inside. -/
theorem at?_observed (slot : SlotId) (ty : Ty) {path : TyPath} (nested : path ≠ []) :
    (observed store slot ty).at? path = ty.at? path := by
  unfold observed
  split
  · exact at?_withState ty _ nested
  · rfl

/-- The types inside do not matter to what is observed of a type itself. -/
theorem mark_observed_refine (slot below : SlotId) (ty : Ty) :
    (observed store slot (refine table store below ty)).mark = (observed store slot ty).mark := by
  have refined : (refine table store below ty).mark = ty.mark ∧
      (refine table store below ty).tellsStates = ty.tellsStates := by
    cases ty with
    | array element mark =>
        rw [refine]
        split <;> exact ⟨rfl, rfl⟩
    | _ => exact ⟨rfl, rfl⟩
  unfold observed
  split
  · rw [mark_withState, mark_withState, refined.1, refined.2]
  · exact refined.1

/-- Every type argument is refined by the slot of its own index. -/
theorem getElem?_refineAll (slot : SlotId) (arguments : List Ty) (start index : Nat) :
    (refineAll table store slot start arguments)[index]? = arguments[index]?.map fun ty =>
      match table.get? (.typeArgument slot (start + index)) with
      | some child => observed store child (refine table store child ty)
      | none => ty := by
  induction arguments generalizing start index with
  | nil => rfl
  | cons ty rest ih =>
      rw [refineAll]
      cases index with
      | zero => rfl
      | succ index =>
          rw [List.getElem?_cons_succ, List.getElem?_cons_succ, ih, Nat.add_right_comm,
            Nat.add_assoc]

/-- The mark that is read of a type in a slot, if it has one. -/
def shownMark (slot? : Option SlotId) (ty : Ty) : Mark :=
  match slot? with
  | some slot => (observed store slot ty).mark
  | none => ty.mark

/-- Every nested position of a refined type shows the mark of its slot. -/
theorem mark_at?_refine {path : TyPath} (nested : path ≠ []) (ty : Ty) (slot : SlotId) :
    ((refine table store slot ty).at? path).map mark =
      (ty.at? path).map (shownMark store (table.inner? path ty slot)) := by
  induction path generalizing ty slot with
  | nil => exact absurd rfl nested
  | cons index rest ih =>
      -- What a slot below shows at the rest of the path, which may be that slot itself.
      have below (child : SlotId) (inner : Ty) :
          ((observed store child (refine table store child inner)).at? rest).map mark =
            (inner.at? rest).map (shownMark store (table.inner? rest inner child)) := by
        by_cases isHere : rest = []
        · subst isHere
          exact congrArg some (mark_observed_refine table store child child inner)
        · rw [at?_observed store child _ isHere]
          exact ih isHere inner child
      cases ty with
      | array element arrayMark =>
          cases index with
          | zero =>
              rw [refine, at?, SlotTable.inner?]
              cases table.get? (.element slot) with
              | none => rfl
              | some child => exact below child element
          | succ index =>
              rw [refine]
              split <;> rfl
      | named name arguments namedMark =>
          have start : (refine table store slot (.named name arguments namedMark)).at?
              (index :: rest) = (refineAll table store slot 0 arguments)[index]?.bind (at? rest) := by
            cases index <;> rfl
          have inside : (Ty.named name arguments namedMark).at? (index :: rest) =
              arguments[index]?.bind (at? rest) := by
            cases index <;> rfl
          have slots : table.inner? (index :: rest) (.named name arguments namedMark) slot =
              arguments[index]?.bind fun inner =>
                (table.get? (.typeArgument slot index)).bind (table.inner? rest inner) := by
            cases index <;> rfl
          rw [start, inside, slots, getElem?_refineAll, Nat.zero_add]
          cases arguments[index]? with
          | none => rfl
          | some inner =>
              simp only [Option.map_some, Option.bind_some]
              cases table.get? (.typeArgument slot index) with
              | none => rfl
              | some child => exact below child inner
      | _ => cases index <;> rfl

end Ty

/-- A step from a type to a type inside it. -/
inductive TyStep where
  | element
  | argument (index : Nat)
deriving DecidableEq

namespace TyStep

/-- The key of the slot that the step leads to. -/
def key (slot : SlotId) : TyStep → SlotKey
  | element => .element slot
  | argument index => .typeArgument slot index

/-- The number of the step in a path. -/
def index : TyStep → Nat
  | element => 0
  | argument index => index

theorem key_parent? (slot : SlotId) (step : TyStep) : (step.key slot).parent? = some slot := by
  cases step <;> rfl

theorem key_injective {slot other : SlotId} {step step' : TyStep}
    (same : step.key slot = step'.key other) : slot = other ∧ step = step' := by
  cases step with
  | element =>
      cases step' with
      | element => exact ⟨SlotKey.element.inj same, rfl⟩
      | argument index => cases same
  | argument index =>
      cases step' with
      | element => cases same
      | argument index' =>
          obtain ⟨sameSlot, rfl⟩ := SlotKey.typeArgument.inj same
          exact ⟨sameSlot, rfl⟩

end TyStep

namespace Ty

/-- The type at the end of the steps. -/
def inside? : List TyStep → Ty → Option Ty
  | [], ty => some ty
  | .element :: steps, .array element _ => inside? steps element
  | .argument index :: steps, .named _ arguments _ => arguments[index]?.bind (inside? steps)
  | _, _ => none

/-- The steps are those of a path. -/
theorem at?_of_inside? {steps : List TyStep} {ty position : Ty}
    (found : ty.inside? steps = some position) :
    ty.at? (steps.map TyStep.index) = some position := by
  induction steps generalizing ty with
  | nil => exact found
  | cons step rest ih =>
      cases step with
      | element =>
          cases ty with
          | array element mark => exact ih found
          | _ => cases found
      | argument index =>
          cases ty with
          | named name arguments mark =>
              obtain ⟨inner, isInner, found⟩ := Option.bind_eq_some_iff.mp found
              have path : (named name arguments mark).at? (index :: rest.map TyStep.index) =
                  arguments[index]?.bind (at? (rest.map TyStep.index)) := by
                cases index <;> rfl
              exact path.trans (Option.bind_eq_some_iff.mpr ⟨inner, isInner, ih found⟩)
          | _ => cases found

end Ty

namespace SlotTable

variable (table : SlotTable)

/-- The slot at the end of the steps. -/
def follow : List TyStep → SlotId → Option SlotId
  | [], slot => some slot
  | step :: steps, slot => (table.get? (step.key slot)).bind (follow steps)

/-- The slot of a position is found along the steps to the position. -/
theorem inner?_of_inside? {steps : List TyStep} {ty position : Ty} (slot : SlotId)
    (found : ty.inside? steps = some position) :
    table.inner? (steps.map TyStep.index) ty slot = table.follow steps slot := by
  induction steps generalizing ty slot with
  | nil => rfl
  | cons step rest ih =>
      cases step with
      | element =>
          cases ty with
          | array element mark =>
              exact Option.bind_congr fun child _ => ih child found
          | _ => cases found
      | argument index =>
          cases ty with
          | named name arguments mark =>
              obtain ⟨inner, isInner, found⟩ := Option.bind_eq_some_iff.mp found
              have path : table.inner? (index :: rest.map TyStep.index) (.named name arguments mark)
                  slot = arguments[index]?.bind fun ty =>
                    (table.get? (.typeArgument slot index)).bind
                      (table.inner? (rest.map TyStep.index) ty) := by
                cases index <;> rfl
              refine path.trans ?_
              rw [isInner]
              exact Option.bind_congr fun child _ => ih child found
          | _ => cases found

end SlotTable

namespace Ty

mutual

/-- The type in which no mark is left. -/
def unmarked : Ty → Ty
  | named name arguments _ => named name (unmarkedAll arguments) .plain
  | value name _ => value name .plain
  | array element _ => array (unmarked element) .plain
  | parameter name _ => parameter name .plain
  | delegate parameters result _ => delegate (unmarkedAll parameters) (unmarked result) .plain
  | dynamic _ => dynamic .plain
  | null _ => null .plain
  | error name _ => error name .plain

def unmarkedAll : List Ty → List Ty
  | [] => []
  | ty :: rest => unmarked ty :: unmarkedAll rest

end

theorem unmarkedAll_eq_map (types : List Ty) : unmarkedAll types = types.map unmarked := by
  induction types with
  | nil => rfl
  | cons ty rest ih => rw [unmarkedAll, List.map_cons, ih]

theorem tellsStates_unmarked (ty : Ty) : ty.unmarked.tellsStates = ty.tellsStates := by
  cases ty <;> rfl

theorem unmarked_withState (ty : Ty) (state : FlowState) :
    (ty.withState state).unmarked = ty.unmarked := by
  cases ty <;> rfl

/-- Marks do not change which positions a type has. -/
theorem inside?_unmarked (steps : List TyStep) (ty : Ty) :
    ty.unmarked.inside? steps = (ty.inside? steps).map unmarked := by
  induction steps generalizing ty with
  | nil => rfl
  | cons step rest ih =>
      cases step with
      | element =>
          cases ty with
          | array element mark => exact ih element
          | _ => rfl
      | argument index =>
          cases ty with
          | named name arguments mark =>
              rw [unmarked, inside?, inside?, unmarkedAll_eq_map, List.getElem?_map]
              cases arguments[index]? with
              | none => rfl
              | some inner => exact ih inner
          | _ => rfl

/-- Types that are equal up to marks have the same positions, and these are equal up to marks. -/
theorem exists_inside?_of_unmarked {first second position : Ty} {steps : List TyStep}
    (same : first.unmarked = second.unmarked) (found : first.inside? steps = some position) :
    ∃ other, second.inside? steps = some other ∧ other.unmarked = position.unmarked := by
  have unmarked := inside?_unmarked steps second
  rw [← same, inside?_unmarked, found] at unmarked
  obtain ⟨other, isOther, equal⟩ := Option.map_eq_some_iff.mp unmarked.symm
  exact ⟨other, isOther, equal⟩

section Refine

variable (table : SlotTable) (store : Store)

/-- Observing a slot changes marks alone. -/
theorem unmarked_observed (slot : SlotId) (ty : Ty) : (observed store slot ty).unmarked = ty.unmarked := by
  unfold observed
  split
  · exact unmarked_withState ty _
  · rfl

mutual

/-- What is read of a place has other marks than the declared type, and nothing else. -/
theorem unmarked_refine : ∀ (ty : Ty) (slot : SlotId),
    (refine table store slot ty).unmarked = ty.unmarked
  | .array element mark, slot => by
      rw [refine]
      cases table.get? (.element slot) with
      | none => rfl
      | some child => simp only [unmarked, unmarked_observed, unmarked_refine element child]
  | .named name arguments mark, slot => by
      rw [refine, unmarked, unmarked, unmarkedAll_refineAll arguments slot 0]
  | .null _, _ => rfl
  | .value .., _ => rfl
  | .parameter .., _ => rfl
  | .delegate .., _ => rfl
  | .dynamic _, _ => rfl
  | .error .., _ => rfl

/-- Refining types changes marks alone. -/
theorem unmarkedAll_refineAll : ∀ (arguments : List Ty) (slot : SlotId) (index : Nat),
    unmarkedAll (refineAll table store slot index arguments) = unmarkedAll arguments
  | [], _, _ => rfl
  | ty :: rest, slot, index => by
      rw [refineAll, unmarkedAll, unmarkedAll, unmarkedAll_refineAll rest slot (index + 1)]
      cases table.get? (.typeArgument slot index) with
      | none => rfl
      | some child => simp only [unmarked_observed, unmarked_refine ty child]

end

end Refine

/-- What a write of the type records at the end of the steps. -/
def recorded? (ty : Ty) (steps : List TyStep) : Option FlowState :=
  (ty.inside? steps).bind fun position =>
    if position.mark = .oblivious then none else some position.declaredState

/-- What a write of type arguments from an index on records at the end of the steps. -/
def recordedFrom? (start : Nat) (arguments : List Ty) : List TyStep → Option FlowState
  | .argument index :: steps =>
      if start ≤ index then arguments[index - start]?.bind fun ty => ty.recorded? steps else none
  | _ => none

theorem recorded?_named (name : String) (arguments : List Ty) (mark : Mark) {steps : List TyStep}
    (nested : steps ≠ []) :
    (named name arguments mark).recorded? steps = recordedFrom? 0 arguments steps := by
  cases steps with
  | nil => exact absurd rfl nested
  | cons step rest =>
      cases step with
      | element => rfl
      | argument index =>
          rw [recorded?, inside?, Option.bind_assoc, recordedFrom?, if_pos (Nat.zero_le index)]
          rfl

/-- Types without arguments and elements have no positions inside. -/
theorem recorded?_atom {ty : Ty} (noArguments : ty.arguments = []) (noElement : ty.element? = none)
    {steps : List TyStep} (nested : steps ≠ []) : ty.recorded? steps = none := by
  cases steps with
  | nil => exact absurd rfl nested
  | cons step rest =>
      cases ty with
      | named name arguments mark =>
          obtain rfl : arguments = [] := noArguments
          cases step <;> rfl
      | array element mark => cases noElement
      | _ => cases step <;> rfl

end Ty

end NullFlow
