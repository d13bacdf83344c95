import NullFlow.Proofs.Store.Lookup
import NullFlow.Proofs.Types.Substitution
/-!
Instantiated types as instances of their base classes. It does not matter whether types are put in for
the type parameters before or after the search for a base class, provided that no class writes foreign
type parameters into its base and that every type on the way has an argument for each type parameter
of its class.
-/

namespace NullFlow

/-- The class extends no other one, or a class with type arguments in which no type parameters occur
but its own. -/
def ClassDeclaration.isClosed (declaration : ClassDeclaration) : Bool :=
  match declaration.base? with
  | none => true
  | some (.named _ arguments _) =>
      (Ty.allParameters arguments).all declaration.typeParameters.contains
  | some _ => false

theorem ClassDeclaration.base_of_isClosed {declaration : ClassDeclaration} {base : Ty}
    (closed : declaration.isClosed = true) (isBase : declaration.base? = some base) :
    ∃ name arguments mark, base = .named name arguments mark ∧
      ∀ parameter ∈ base.parameters, parameter ∈ declaration.typeParameters := by
  rw [isClosed, isBase] at closed
  cases base with
  | named name arguments mark =>
      refine ⟨name, arguments, mark, rfl, fun parameter occurs => ?_⟩
      exact List.contains_iff_mem.mp (List.all_eq_true.mp closed parameter occurs)
  | _ => cases closed

namespace ClassTable

variable (classes : ClassTable)

/-- No class writes foreign type parameters into its base. -/
def basesClosed : Bool := classes.declarations.all ClassDeclaration.isClosed

/-- The type has an argument for each type parameter of its class, if the class is declared. -/
def isSaturated : Ty → Bool
  | .named name arguments _ => (SortedMap.get? classes name).all fun declaration =>
      arguments.length == declaration.typeParameters.length
  | _ => true

/-- The types that the search for the owner looks at: the type and its next base classes. -/
def searched (owner : String) : Nat → Ty → List Ty
  | 0, _ => []
  | steps + 1, .named name arguments mark =>
      .named name arguments mark ::
        if name = owner then []
        else ((classes.base? (.named name arguments mark)).map (searched owner steps)).getD []
  | _ + 1, ty => [ty]

variable {classes}

/-- In a table of closed classes every class is closed. -/
theorem closed_of_get? (closed : classes.basesClosed = true) {name : String}
    {declaration : ClassDeclaration} (declared : SortedMap.get? classes name = some declaration) :
    declaration.isClosed = true :=
  List.all_eq_true.mp closed declaration (SortedMap.mem_of_find declared)

/-- The base of an instantiated type is the instantiated base. -/
theorem base?_substitute (closed : classes.basesClosed = true) {name : String}
    {arguments : List Ty} {mark : Mark}
    (saturated : classes.isSaturated (.named name arguments mark) = true) (types : Instantiation) :
    classes.base? ((Ty.named name arguments mark).substitute types) =
      (classes.base? (.named name arguments mark)).map (Ty.substitute types) := by
  simp only [Ty.substitute, base?, Option.bind_eq_bind, Option.pure_def]
  cases declared : SortedMap.get? classes name with
  | none => rfl
  | some declaration =>
      cases isBase : declaration.base? with
      | none => simp [isBase]
      | some base =>
          have enough : arguments.length = declaration.typeParameters.length := by
            simpa [isSaturated, declared] using saturated
          obtain ⟨-, -, -, -, own⟩ :=
            ClassDeclaration.base_of_isClosed (closed_of_get? closed declared) isBase
          simp only [Option.bind_some, isBase, Option.map_some, Option.some.injEq,
            Ty.substitute_andThen]
          refine Ty.substitute_congr fun parameter occurs => ?_
          obtain ⟨bound, isBound⟩ := Instantiation.exists_ofLists enough (own parameter occurs)
          rw [Instantiation.andThen_bound isBound, Ty.substituteAll_eq_map,
            Instantiation.ofLists_map, isBound]
          rfl

/-- The base of a type is one of a class. -/
theorem named_of_base? (closed : classes.basesClosed = true) {ty base : Ty}
    (isBase : classes.base? ty = some base) : ∃ name arguments mark, base = .named name arguments mark := by
  cases ty with
  | named name arguments mark =>
      obtain ⟨declaration, declared, rest⟩ := Option.bind_eq_some_iff.mp isBase
      obtain ⟨written, isWritten, rest⟩ := Option.bind_eq_some_iff.mp rest
      obtain ⟨other, others, former, rfl, -⟩ :=
        ClassDeclaration.base_of_isClosed (closed_of_get? closed declared) isWritten
      exact ⟨other, _, former, (Option.some.inj rest).symm⟩
  | _ => cases isBase

/-- The search in an instantiated type finds the instantiated class. -/
theorem ancestor?_substitute (closed : classes.basesClosed = true) (owner : String)
    (types : Instantiation) {steps : Nat} {name : String} {arguments : List Ty} {mark : Mark}
    (saturated : ∀ met ∈ classes.searched owner steps (.named name arguments mark),
      classes.isSaturated met = true) :
    classes.ancestor? owner steps ((Ty.named name arguments mark).substitute types) =
      (classes.ancestor? owner steps (.named name arguments mark)).map (Ty.substitute types) := by
  induction steps generalizing name arguments mark with
  | zero => rfl
  | succ steps ih =>
      have here : classes.isSaturated (.named name arguments mark) = true :=
        saturated _ (by rw [searched]; exact List.mem_cons_self)
      have sameBase := base?_substitute closed here types
      rw [Ty.substitute] at sameBase
      by_cases isOwner : name = owner
      · rw [Ty.substitute, ancestor?, ancestor?, if_pos isOwner, if_pos isOwner, Option.map_some,
          Ty.substitute]
      · rw [Ty.substitute, ancestor?, ancestor?, if_neg isOwner, if_neg isOwner, sameBase]
        cases isBase : classes.base? (.named name arguments mark) with
        | none => rfl
        | some base =>
            obtain ⟨other, others, former, rfl⟩ := named_of_base? closed isBase
            refine ih fun met inBase => saturated met ?_
            rw [searched, if_neg isOwner, isBase]
            exact List.mem_cons_of_mem _ inBase

end ClassTable

/-- An instantiated type is an instance of the owner if and only if the type itself is, and the view
as such an instance is the instantiated view of the type. -/
theorem base_view_substitute (classes : ClassTable) (closed : classes.basesClosed = true)
    (owner name : String) (arguments : List Ty) (mark : Mark)
    (saturated : ∀ met ∈ classes.searched owner ClassTable.searchDepth (.named name arguments mark),
      classes.isSaturated met = true) (types : Instantiation) :
    classes.instance? ((Ty.named name arguments mark).substitute types) owner =
      (classes.instance? (.named name arguments mark) owner).map (Ty.substitute types) :=
  ClassTable.ancestor?_substitute closed owner types saturated

section Example

/-- Pairs, a class that extends them with the components swapped, the first of which may be null, and
a class of two boxes that extends the latter. -/
def swappingClasses : ClassTable := .ofList [⟨"Pair", ["S", "T"], none⟩,
  ⟨"Swap", ["S", "T"], some (.named "Pair" [.parameter "T" .nullable, .parameter "S" .plain] .plain)⟩,
  ⟨"Twin", ["T"], some (.named "Swap" [.named "Box" [.parameter "T" .plain] .plain,
    .parameter "T" .plain] .plain)⟩]

def twinOf (component : Ty) : Ty := .named "Twin" [component] .plain

/-- A twin of some `X`, with objects put in for `X`, is seen as a pair of objects. The first one may be
null. -/
theorem twin_view_instantiated :
    swappingClasses.basesClosed = true ∧
      (∀ met ∈ swappingClasses.searched "Pair" ClassTable.searchDepth (twinOf (.parameter "X" .plain)),
        swappingClasses.isSaturated met = true) ∧
      swappingClasses.instance? (twinOf (.named "object" [] .plain)) "Pair" =
        some (.named "Pair" [.named "object" [] .nullable,
          .named "Box" [.named "object" [] .plain] .plain] .plain) := by
  have closed : swappingClasses.basesClosed = true := by decide +kernel
  have saturated : ∀ met ∈ swappingClasses.searched "Pair" ClassTable.searchDepth
      (twinOf (.parameter "X" .plain)), swappingClasses.isSaturated met = true := by
    decide +kernel
  have view : swappingClasses.instance? (twinOf (.parameter "X" .plain)) "Pair" =
      some (.named "Pair" [.parameter "X" .nullable,
        .named "Box" [.parameter "X" .plain] .plain] .plain) := by
    with_unfolding_all rfl
  have objects := base_view_substitute swappingClasses closed "Pair" "Twin" [.parameter "X" .plain]
    .plain saturated (.ofLists ["X"] [.named "object" [] .plain])
  rw [twinOf] at view
  rw [view] at objects
  exact ⟨closed, saturated, objects⟩

end Example

end NullFlow
