import Mathlib.Data.List.TakeWhile
import NullFlow.Analysis.Inference
import NullFlow.Proofs.Body.LeastSolutions
import NullFlow.Proofs.Types.Conversions
/-!
The nullability of inferred types and the order of the arguments. A type parameter is bound to the
type of the first argument that has a shape, and the binding becomes nullable with that argument or
with a later one. It is the same for every order in which no argument without a shape comes first.
A null literal that comes first is not heard of, and the call is then reported for it.
-/

namespace NullFlow

namespace Ty

/-- The null literal and unresolved types give a type parameter nothing to stand for. -/
def isShapeless : Ty → Bool
  | null _ => true
  | error .. => true
  | _ => false

/-- A type parameter for an argument of the type has to accept null. -/
def admitsNull (ty : Ty) : Bool := ty.isShapeless || ty.mark = .nullable

end Ty

/-- Some argument admits null. -/
def AdmitNull (arguments : List Ty) : Prop := ∃ argument ∈ arguments, argument.admitsNull = true

/-- The arguments from the first one with a shape on. -/
def fromShaped (arguments : List Ty) : List Ty := arguments.dropWhile Ty.isShapeless

section Arguments

variable {arguments : List Ty}

/-- A list admits null if its first shape does by its own mark, or a later argument does at all. -/
theorem admitNull_cons {first : Ty} (shaped : first.isShapeless = false) (rest : List Ty) :
    AdmitNull (first :: rest) ↔ first.mark = .nullable ∨ rest.any Ty.admitsNull = true := by
  simp [AdmitNull, Ty.admitsNull, shaped]

/-- Where some argument has a shape, one is the first. -/
theorem exists_fromShaped (shaped : ∃ ty ∈ arguments, ty.isShapeless = false) :
    ∃ first rest, fromShaped arguments = first :: rest ∧ first.isShapeless = false := by
  obtain ⟨ty, member, hasShape⟩ := shaped
  cases split : fromShaped arguments with
  | nil =>
      have shapeless := List.dropWhile_eq_nil_iff.mp split ty member
      rw [hasShape] at shapeless
      cases shapeless
  | cons first rest =>
      have atHead := List.head?_dropWhile_not Ty.isShapeless arguments
      rw [← fromShaped, split] at atHead
      exact ⟨first, rest, rfl, atHead⟩

/-- An argument is heard unless it comes before the first one with a shape, and then it admits
null. -/
theorem admitNull_or_fromShaped_eq (alike : AdmitNull (fromShaped arguments) ↔ AdmitNull arguments) :
    fromShaped arguments = arguments ∨ AdmitNull (fromShaped arguments) := by
  cases arguments with
  | nil => exact .inl rfl
  | cons first rest =>
      cases shape : first.isShapeless with
      | false => exact .inl (List.dropWhile_cons_of_neg (Bool.not_eq_true _ ▸ shape))
      | true =>
          refine .inr (alike.mpr ⟨first, List.mem_cons_self, ?_⟩)
          rw [Ty.admitsNull, shape, Bool.true_or]

end Arguments

namespace Bindings

section Lookup

variable (name : String) (bindings : Bindings)

/-- Marking a binding nullable changes the mark of the bound type. -/
theorem lookup_markNullable :
    (bindings.markNullable name).lookup name = (bindings.lookup name).map (Ty.marked .nullable) := by
  induction bindings with
  | nil => rfl
  | cons entry rest ih =>
      obtain ⟨bound, ty⟩ := entry
      by_cases isName : bound = name
      · subst isName
        simp [markNullable]
      · have differ : (name == bound) = false := beq_false_of_ne (Ne.symm isName)
        rw [markNullable] at ih ⊢
        simp only [List.map_cons, List.lookup_cons, differ, ih]

/-- The first type binds a parameter for good. A nullable type after it only marks the binding. -/
theorem lookup_bind (ty : Ty) :
    (bindings.bind name ty).lookup name = some (match bindings.lookup name with
      | none => ty
      | some bound => if ty.mark = .nullable then bound.marked .nullable else bound) := by
  rw [bind]
  cases found : bindings.lookup name with
  | none => simp [List.lookup_append, found]
  | some bound =>
      by_cases nullable : ty.mark = .nullable
      · simp only [if_pos nullable, lookup_markNullable, found, Option.map_some]
      · simp only [if_neg nullable, found]

end Lookup

section Observe

variable {name : String} {mark : Mark} {bindings : Bindings}

/-- An argument without a shape marks what is bound already. -/
theorem observe_shapeless {argument : Ty} (shapeless : argument.isShapeless = true) :
    bindings.observe name mark argument = bindings.markNullable name := by
  cases argument with
  | null => rfl
  | error => rfl
  | _ => cases shapeless

/-- An argument with a shape for a parameter that is not marked nullable is bound as it is. -/
theorem observe_shaped {argument : Ty} (shaped : argument.isShapeless = false)
    (plain : mark ≠ .nullable) : bindings.observe name mark argument = bindings.bind name argument := by
  cases argument with
  | null => cases shaped
  | error => cases shaped
  | _ => simp only [observe, if_neg plain]

/-- A bound parameter keeps its type and becomes nullable with an argument that admits null. -/
theorem lookup_observe_bound (plain : mark ≠ .nullable) {bound : Ty}
    (found : bindings.lookup name = some bound) (argument : Ty) :
    (bindings.observe name mark argument).lookup name =
      some (if argument.admitsNull then bound.marked .nullable else bound) := by
  cases shape : argument.isShapeless with
  | true =>
      rw [observe_shapeless shape, lookup_markNullable, found, Ty.admitsNull, shape]
      rfl
  | false =>
      rw [observe_shaped shape plain, lookup_bind, found, Ty.admitsNull, shape]
      simp

/-- The first argument with a shape binds its parameter, and one without a shape leaves it free. -/
theorem lookup_observe_unbound (plain : mark ≠ .nullable) (unbound : bindings.lookup name = none)
    (argument : Ty) :
    (bindings.observe name mark argument).lookup name =
      if argument.isShapeless then none else some argument := by
  cases shape : argument.isShapeless with
  | true =>
      rw [observe_shapeless shape, lookup_markNullable, unbound]
      rfl
  | false =>
      rw [observe_shaped shape plain, lookup_bind, unbound]
      rfl

end Observe

section Run

variable (classes : ClassTable) (names : List String)

/-- Takes arguments for parameters of one type into account, one after the other. -/
def inferEach (parameter : Ty) (arguments : List Ty) (bindings : Bindings) : Bindings :=
  arguments.foldl (fun bindings argument => bindings.infer classes names parameter argument) bindings

variable {names} {name : String} {mark : Mark} {bindings : Bindings}

/-- A parameter learns from the argument at its own place. -/
theorem infer_parameter (declared : name ∈ names) (argument : Ty) (bindings : Bindings) :
    bindings.infer classes names (.parameter name mark) argument =
      bindings.observe name mark argument := by
  rw [infer, if_pos (List.contains_iff_mem.mpr declared)]

/-- A parameter that is bound before the arguments keeps its type. -/
theorem lookup_inferEach_bound (declared : name ∈ names) (plain : mark ≠ .nullable)
    (arguments : List Ty) {bound : Ty} (found : bindings.lookup name = some bound) :
    (bindings.inferEach classes names (.parameter name mark) arguments).lookup name =
      some (if arguments.any Ty.admitsNull then bound.marked .nullable else bound) := by
  induction arguments generalizing bindings bound with
  | nil => exact found
  | cons argument rest ih =>
      have step := lookup_observe_bound plain found argument
      rw [← infer_parameter classes declared] at step
      refine (ih step).trans ?_
      rw [List.any_cons]
      cases argument.admitsNull <;> simp

/-- A parameter that is not bound is bound by the first argument that has a shape. -/
theorem lookup_inferEach_unbound (declared : name ∈ names) (plain : mark ≠ .nullable)
    (arguments : List Ty) (unbound : bindings.lookup name = none) :
    (bindings.inferEach classes names (.parameter name mark) arguments).lookup name =
      match fromShaped arguments with
      | [] => none
      | first :: rest => some (if rest.any Ty.admitsNull then first.marked .nullable else first) := by
  induction arguments generalizing bindings with
  | nil => exact unbound
  | cons argument rest ih =>
      have step := lookup_observe_unbound plain unbound argument
      rw [← infer_parameter classes declared] at step
      cases shape : argument.isShapeless with
      | true =>
          rw [shape, if_pos rfl] at step
          rw [fromShaped, List.dropWhile_cons_of_pos shape]
          exact ih step
      | false =>
          rw [shape, if_neg Bool.false_ne_true] at step
          rw [fromShaped, List.dropWhile_cons_of_neg (Bool.not_eq_true _ ▸ shape)]
          exact lookup_inferEach_bound classes declared plain rest step

/-- The parameter is bound if an argument has a shape, and to a nullable type exactly if an argument
admits null that does not come before the first one with a shape. -/
theorem exists_lookup_inferEach (declared : name ∈ names) (plain : mark ≠ .nullable)
    {arguments : List Ty} (unbound : bindings.lookup name = none)
    (shaped : ∃ ty ∈ arguments, ty.isShapeless = false) :
    ∃ ty, (bindings.inferEach classes names (.parameter name mark) arguments).lookup name = some ty ∧
      (ty.mark = .nullable ↔ AdmitNull (fromShaped arguments)) := by
  have bound := lookup_inferEach_unbound classes declared plain arguments unbound
  obtain ⟨first, rest, split, hasShape⟩ := exists_fromShaped shaped
  rw [split] at bound ⊢
  refine ⟨_, bound, ?_⟩
  rw [admitNull_cons hasShape]
  cases rest.any Ty.admitsNull <;> simp

end Run

end Bindings

/-- Arguments of which one has a shape bind the parameter that they are passed for. The binding is
nullable exactly if an argument admits null that does not come before the first one with a shape. So
it tells whether any argument admits null exactly if none comes before that one, or if an argument
from there on admits null as well. Two orders in which none comes before agree. -/
theorem inferred_nullable_iff (classes : ClassTable) {names : List String} {name : String}
    (declared : name ∈ names) {mark : Mark} (plain : mark ≠ .nullable) {start : Bindings}
    (unbound : start.lookup name = none) {arguments : List Ty}
    (shaped : ∃ ty ∈ arguments, ty.isShapeless = false) :
    let bound := fun arguments =>
      (start.inferEach classes names (.parameter name mark) arguments).lookup name
    ∃ ty, bound arguments = some ty ∧
      (ty.mark = .nullable ↔ AdmitNull (fromShaped arguments)) ∧
      ((ty.mark = .nullable ↔ AdmitNull arguments) ↔
        fromShaped arguments = arguments ∨ AdmitNull (fromShaped arguments)) ∧
      ∀ others : List Ty, others.Perm arguments → fromShaped arguments = arguments →
        fromShaped others = others →
        ∃ other, bound others = some other ∧ (other.mark = .nullable ↔ ty.mark = .nullable) := by
  intro bound
  obtain ⟨ty, isBound, nullable⟩ :=
    Bindings.exists_lookup_inferEach classes declared plain unbound shaped
  refine ⟨ty, isBound, nullable, ?_, fun others reordered none noneOther => ?_⟩
  · rw [nullable]
    constructor
    · exact admitNull_or_fromShaped_eq
    · rintro (none | ⟨argument, member, admits⟩)
      · rw [none]
      · have inside := (List.dropWhile_sublist Ty.isShapeless).subset member
        exact iff_of_true ⟨argument, member, admits⟩ ⟨argument, inside, admits⟩
  · obtain ⟨shape, member, hasShape⟩ := shaped
    obtain ⟨other, isOther, nullableOther⟩ := Bindings.exists_lookup_inferEach classes declared plain
      unbound ⟨shape, reordered.mem_iff.mpr member, hasShape⟩
    refine ⟨other, isOther, ?_⟩
    rw [nullable, nullableOther, none, noneOther]
    exact exists_congr fun argument => and_congr_left' reordered.mem_iff

namespace Body

section Example

/-- An object first and null second bind the parameter to a nullable type. -/
theorem objectFirst_infers_nullable :
    ("T" ∈ ["T"] ∧ Mark.plain ≠ .nullable ∧ List.lookup "T" ([] : Bindings) = none ∧
      ∃ ty ∈ [plainClass, .null .plain], ty.isShapeless = false) ∧
    ∃ ty, (Bindings.inferEach plainClasses ["T"] (.parameter "T" .plain)
      [plainClass, .null .plain] []).lookup "T" = some ty ∧ ty.mark = .nullable := by
  have given : "T" ∈ ["T"] ∧ Mark.plain ≠ .nullable ∧ List.lookup "T" ([] : Bindings) = none ∧
      ∃ ty ∈ [plainClass, .null .plain], ty.isShapeless = false :=
    ⟨List.mem_singleton_self _, by decide, rfl, plainClass, List.mem_cons_self, rfl⟩
  obtain ⟨declared, plain, unbound, shaped⟩ := given
  obtain ⟨ty, isBound, nullable, _⟩ :=
    inferred_nullable_iff plainClasses declared plain unbound shaped
  exact ⟨⟨declared, plain, unbound, shaped⟩, ty, isBound,
    nullable.mpr ⟨.null .plain, by simp [fromShaped, plainClass, Ty.isShapeless], rfl⟩⟩

/-- Two values of one type, of which the first one is null. The call yields one of them, of which a
method is called. -/
def nullFirst : Body where
  name := "M"
  span? := none
  thisType? := none
  parameters := [0]
  returnType := .void
  locals := #[⟨"x", plainClass, false⟩]
  exprs := #[nullValue, ownRead,
    ⟨.call none ⟨"Pick", "Pick(T, T)", none, ["T"],
      [⟨"first", .parameter "T" .plain⟩, ⟨"second", .parameter "T" .plain⟩], .parameter "T" .plain⟩
      [⟨0, none⟩, ⟨1, none⟩], some plainClass, .none⟩,
    ⟨.call (some 2) ⟨"Foo", "C.Foo()", some "C", [], [], .void⟩ [], some .void, .none⟩]
  stmts := #[⟨.evaluate 3, .none⟩]
  root := 0

/-- Null first and an object second bind the parameter to a type that is not nullable. The null
argument is reported, and the method call is not. -/
theorem nullFirst_hides_null :
    (∃ ty, (Bindings.inferEach plainClasses ["T"] (.parameter "T" .plain)
        [.null .plain, plainClass] []).lookup "T" = some ty ∧
      (∃ argument ∈ [.null .plain, plainClass], argument.admitsNull = true) ∧
      ty.mark ≠ .nullable) ∧
    nullFirst.validate = .ok () ∧ ∃ method, nullFirst.method? = some method ∧
      method.analyze plainClasses ⟨40, false⟩ false =
        some ⟨[.argument .none "M" "first" "Pick(T, T)"], none, 2, true⟩ := by
  have checked : (nullFirst.method?.any fun method =>
      decide (method.analyze plainClasses ⟨40, false⟩ false =
        some ⟨[.argument .none "M" "first" "Pick(T, T)"], none, 2, true⟩)) = true := by
    decide +kernel
  obtain ⟨method, found, analyzed⟩ := (Option.any_eq_true _ _).mp checked
  refine ⟨⟨plainClass, rfl, ⟨.null .plain, List.mem_cons_self, rfl⟩, by decide⟩, ?_⟩
  exact ⟨by decide +kernel, method, found, of_decide_eq_true analyzed⟩

end Example

end Body

end NullFlow
