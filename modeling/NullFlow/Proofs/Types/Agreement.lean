import NullFlow.Proofs.Types.Convertibility
/-!
Agreement of marks. Between types that are equal up to marks a conversion never fails. It compares the
marks at every nested position, of type arguments, array elements, and parameters and results of
delegates, and it loses nullability if and only if two of them disagree.
-/

namespace NullFlow

namespace Ty

/-- The types directly inside the type. Of a delegate, the result comes first. -/
def parts : Ty → List Ty
  | named _ arguments _ => arguments
  | array element _ => [element]
  | delegate inputs result _ => result :: inputs
  | value .. => []
  | parameter .. => []
  | dynamic _ => []
  | null _ => []
  | error .. => []

/-- The type at the end of a path of parts. -/
def nested? : TyPath → Ty → Option Ty
  | [], ty => some ty
  | index :: path, ty => ty.parts[index]?.bind (nested? path)

/-- The marks agree at all nested positions that both types have. The top is none of them. -/
def AgreeInside (first second : Ty) : Prop :=
  ∀ (path : TyPath) (one two : Ty), path ≠ [] → first.nested? path = some one →
    second.nested? path = some two → one.mark.agrees two.mark = true

/-- The marks agree at the top and at all nested positions. -/
def Agree (first second : Ty) : Prop :=
  first.mark.agrees second.mark = true ∧ AgreeInside first second

/-- Types at the same places of two lists agree. -/
def AllAgree (first second : List Ty) : Prop :=
  ∀ (index : Nat) (one two : Ty), first[index]? = some one → second[index]? = some two → Agree one two

theorem allAgree_nil (second : List Ty) : AllAgree [] second := by
  intro index one two isOne
  cases isOne

/-- Lists agree if their heads and their tails do. -/
theorem allAgree_cons {first second : Ty} {firsts seconds : List Ty} :
    AllAgree (first :: firsts) (second :: seconds) ↔ Agree first second ∧ AllAgree firsts seconds := by
  constructor
  · intro agree
    exact ⟨agree 0 first second rfl rfl, fun index => agree (index + 1)⟩
  · rintro ⟨here, rest⟩ index one two isOne isTwo
    cases index with
    | zero =>
        obtain rfl := Option.some.inj isOne
        obtain rfl := Option.some.inj isTwo
        exact here
    | succ index => exact rest index one two isOne isTwo

/-- Types agree inside if and only if their parts agree. -/
theorem agreeInside_iff (first second : Ty) :
    AgreeInside first second ↔ AllAgree first.parts second.parts := by
  constructor
  · intro agree index one two isOne isTwo
    have below (path : TyPath) (inOne inTwo : Ty) (found : one.nested? path = some inOne)
        (foundTwo : two.nested? path = some inTwo) : inOne.mark.agrees inTwo.mark = true := by
      refine agree (index :: path) inOne inTwo (List.cons_ne_nil index path) ?_ ?_
      · rw [nested?, isOne, Option.bind_some, found]
      · rw [nested?, isTwo, Option.bind_some, foundTwo]
    exact ⟨below [] one two rfl rfl, fun path inOne inTwo _ => below path inOne inTwo⟩
  · intro agree path one two nested found foundTwo
    cases path with
    | nil => exact absurd rfl nested
    | cons index rest =>
        obtain ⟨part, isPart, found⟩ := Option.bind_eq_some_iff.mp found
        obtain ⟨other, isOther, foundTwo⟩ := Option.bind_eq_some_iff.mp foundTwo
        obtain ⟨here, inside⟩ := agree index part other isPart isOther
        by_cases atPart : rest = []
        · subst atPart
          obtain rfl := Option.some.inj found
          obtain rfl := Option.some.inj foundTwo
          exact here
        · exact inside rest one two atPart found foundTwo

/-- Types without parts agree inside with all types. -/
theorem agreeInside_of_isAtom {first : Ty} (atom : first.isAtom = true) (second : Ty) :
    AgreeInside first second := by
  have noParts : first.parts = [] := by
    cases first with
    | named => cases atom
    | array => cases atom
    | delegate => cases atom
    | _ => rfl
  rw [agreeInside_iff, noParts]
  exact allAgree_nil second.parts

section Shapes

/-- A type that differs from a class type in marks alone is one of the same name. -/
theorem exists_named {ty : Ty} {name : String} {arguments : List Ty} {mark : Mark}
    (alike : ty.unmarked = (named name arguments mark).unmarked) :
    ∃ others former, ty = named name others former ∧ unmarkedAll others = unmarkedAll arguments := by
  cases ty with
  | named other others former =>
      obtain ⟨rfl, same, -⟩ := named.inj alike
      exact ⟨others, former, rfl, same⟩
  | _ => cases alike

/-- A type that differs from an array in marks alone is an array. -/
theorem exists_array {ty element : Ty} {mark : Mark}
    (alike : ty.unmarked = (array element mark).unmarked) :
    ∃ other former, ty = array other former ∧ other.unmarked = element.unmarked := by
  cases ty with
  | array other former => exact ⟨other, former, rfl, (array.inj alike).1⟩
  | _ => cases alike

/-- A type that differs from a delegate in marks alone is a delegate. -/
theorem exists_delegate {ty result : Ty} {inputs : List Ty} {mark : Mark}
    (alike : ty.unmarked = (delegate inputs result mark).unmarked) :
    ∃ others other former, ty = delegate others other former ∧
      unmarkedAll others = unmarkedAll inputs ∧ other.unmarked = result.unmarked := by
  cases ty with
  | delegate others other former =>
      obtain ⟨sameInputs, sameResult, -⟩ := delegate.inj alike
      exact ⟨others, other, former, rfl, sameInputs, sameResult⟩
  | _ => cases alike

theorem isAtom_unmarked (ty : Ty) : ty.unmarked.isAtom = ty.isAtom := by
  cases ty <;> rfl

/-- An atom has no marks but that at the top. -/
theorem unmarked_of_isAtom {ty : Ty} (atom : ty.isAtom = true) : ty.unmarked = ty.shape := by
  cases ty with
  | named => cases atom
  | array => cases atom
  | delegate => cases atom
  | _ => rfl

end Shapes

end Ty

namespace ClassTable

variable (classes : ClassTable)

/-- A nested position is fine if its marks agree and all inside is fine. -/
theorem nested_eq_ok {answer : Conversion} {source target : Ty} :
    nested answer source target = .ok ↔
      source.mark.agrees target.mark = true ∧ answer = .ok := by
  rw [nested]
  cases source.mark.agrees target.mark <;> cases answer <;> decide

/-- Two answers are fine together if both are. -/
theorem worst_eq_ok {first second : Conversion} :
    first.worst second = .ok ↔ first = .ok ∧ second = .ok := by
  cases first <;> cases second <;> decide

/-- Nothing is compared between atoms that are equal up to marks. -/
theorem atom_eq_ok_iff {source target : Ty} (atom : target.isAtom = true)
    (alike : source.unmarked = target.unmarked) :
    classes.classify source target = .ok ↔ Ty.AgreeInside source target := by
  have sourceAtom : source.isAtom = true := by
    rw [← source.isAtom_unmarked, alike, target.isAtom_unmarked, atom]
  refine iff_of_true ?_ (Ty.agreeInside_of_isAtom sourceAtom target)
  rw [← classify_shape, ← Ty.unmarked_of_isAtom sourceAtom, ← Ty.unmarked_of_isAtom atom, alike,
    classify_self]

mutual

/-- A conversion between types that are equal up to marks is smooth if and only if the marks inside
agree. -/
theorem classify_eq_ok_iff : ∀ target source : Ty, source.unmarked = target.unmarked →
    (classes.classify source target = .ok ↔ Ty.AgreeInside source target)
  | .named name arguments mark, source, alike => by
      obtain ⟨others, former, rfl, same⟩ := Ty.exists_named alike
      rw [Ty.agreeInside_iff]
      simp only [classify, instance?_self, Ty.arguments, Ty.parts]
      split
      · rename_i object
        obtain rfl := List.isEmpty_iff.mp (Bool.and_eq_true_iff.mp object).2
        cases others with
        | nil => exact iff_of_true rfl (Ty.allAgree_nil [])
        | cons => cases same
      · exact classifyAll_eq_ok_iff arguments others same
  | .array target mark, source, alike => by
      obtain ⟨element, former, rfl, same⟩ := Ty.exists_array alike
      rw [Ty.agreeInside_iff, Ty.parts, Ty.parts, Ty.allAgree_cons, Ty.Agree]
      simp only [classify, nested_eq_ok, classify_eq_ok_iff target element same, Ty.allAgree_nil,
        and_true]
  | .delegate inputs target mark, source, alike => by
      obtain ⟨others, result, former, rfl, sameInputs, sameResult⟩ := Ty.exists_delegate alike
      rw [Ty.agreeInside_iff, Ty.parts, Ty.parts, Ty.allAgree_cons, Ty.Agree]
      simp only [classify, worst_eq_ok, nested_eq_ok, classify_eq_ok_iff target result sameResult,
        classifyAll_eq_ok_iff inputs others sameInputs]
      exact and_comm
  | .value .., source, alike => atom_eq_ok_iff classes rfl alike
  | .parameter .., source, alike => atom_eq_ok_iff classes rfl alike
  | .dynamic _, source, alike => atom_eq_ok_iff classes rfl alike
  | .null _, source, alike => atom_eq_ok_iff classes rfl alike
  | .error .., source, alike => atom_eq_ok_iff classes rfl alike

/-- Argument lists that differ in marks alone convert well if their marks agree in every position.
-/
theorem classifyAll_eq_ok_iff : ∀ targets sources : List Ty,
    Ty.unmarkedAll sources = Ty.unmarkedAll targets →
    (classes.classifyAll sources targets = .ok ↔ Ty.AllAgree sources targets)
  | [], sources, alike => by
      cases sources with
      | nil => exact iff_of_true rfl (Ty.allAgree_nil [])
      | cons => cases alike
  | target :: targets, sources, alike => by
      cases sources with
      | nil => cases alike
      | cons source sources =>
          obtain ⟨same, rest⟩ := List.cons.inj alike
          rw [Ty.allAgree_cons, Ty.Agree, classifyAll, worst_eq_ok, nested_eq_ok,
            classify_eq_ok_iff target source same, classifyAll_eq_ok_iff targets sources rest]

end

end ClassTable

/-- A type converts to every type that is equal up to marks. The conversion is smooth if and only if
the marks agree at every nested position, and it loses nullability otherwise. In particular every type
converts smoothly to itself. -/
theorem conversion_compares_positions (classes : ClassTable) :
    (∀ source target : Ty, source.unmarked = target.unmarked →
      classes.classify source target ≠ .incompatible ∧
      (classes.classify source target = .ok ↔ Ty.AgreeInside source target) ∧
      (classes.classify source target = .losesNullability ↔ ¬Ty.AgreeInside source target)) ∧
    ∀ ty : Ty, classes.classify ty ty = .ok := by
  refine ⟨fun source target alike => ?_, classes.classify_self⟩
  have smooth := classes.classify_eq_ok_iff target source alike
  have converts : classes.classify source target ≠ .incompatible := by
    rw [Ne, ClassTable.incompatible_congr alike rfl, classes.classify_self]
    exact Conversion.noConfusion
  refine ⟨converts, smooth, ?_⟩
  rw [← smooth]
  cases answer : classes.classify source target with
  | ok => simp
  | losesNullability => simp
  | incompatible => exact absurd answer converts

section Example

/-- A class that extends itself with a larger type argument. -/
def growingClasses : ClassTable :=
  .ofList [⟨"Box", ["T"], some (.named "Box" [.named "Box" [.parameter "T" .plain] .plain] .plain)⟩]

/-- An object that holds an array of functions with the marks at their parameter and their result. -/
def functionBox (input result : Mark) : Ty :=
  .named "Box" [.array (.delegate [.named "object" [] input] (.named "object" [] result) .plain) .plain]
    .plain

/-- The result of the functions may be null in both types, or in one of them alone. Their parameter is
oblivious in one of the types. -/
theorem functionBox_compared :
    (functionBox .plain .nullable).unmarked = (functionBox .oblivious .plain).unmarked ∧
      growingClasses.classify (functionBox .plain .nullable) (functionBox .oblivious .plain) =
        .losesNullability ∧
      growingClasses.classify (functionBox .plain .nullable) (functionBox .oblivious .nullable) =
        .ok := by
  have differ : ¬Ty.AgreeInside (functionBox .plain .nullable) (functionBox .oblivious .plain) := by
    intro agree
    have atResult := agree [0, 0, 0] _ _ (List.cons_ne_nil _ _) rfl rfl
    cases atResult
  have agree :
      Ty.AgreeInside (functionBox .plain .nullable) (functionBox .oblivious .nullable) := by
    simp [functionBox, Ty.agreeInside_iff, Ty.parts, Ty.allAgree_cons, Ty.allAgree_nil, Ty.Agree,
      Ty.mark, Mark.agrees]
  obtain ⟨compared, -⟩ := conversion_compares_positions growingClasses
  obtain ⟨-, -, loses⟩ := compared (functionBox .plain .nullable) (functionBox .oblivious .plain) rfl
  obtain ⟨-, smooth, -⟩ :=
    compared (functionBox .plain .nullable) (functionBox .oblivious .nullable) rfl
  exact ⟨rfl, loses.mpr differ, smooth.mpr agree⟩

end Example

end NullFlow
