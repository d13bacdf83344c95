import NullFlow.Proofs.Types.Conversions
/-!
Substitutions one after the other, and when two of them give a type the same result. Two substitutions
in a row are one substitution, and a substitution is known from what it does to the occurrences of type
parameters in the type. The parameters of the result are those of the types that were put in.
-/

namespace NullFlow

namespace Ty

section Names

mutual

/-- The names of the type parameters in the type, as often as they occur. -/
def parameters : Ty → List String
  | named _ arguments _ => allParameters arguments
  | array element _ => parameters element
  | parameter name _ => [name]
  | delegate inputs result _ => allParameters inputs ++ parameters result
  | value .. => []
  | dynamic _ => []
  | null _ => []
  | error .. => []

def allParameters : List Ty → List String
  | [] => []
  | ty :: rest => parameters ty ++ allParameters rest

end

@[simp]
theorem parameters_marked (ty : Ty) (mark : Mark) : (ty.marked mark).parameters = ty.parameters := by
  cases ty <;> rfl

mutual

/-- A type mentions names if one of them is among its parameters. -/
theorem mentionsAny_iff : ∀ (ty : Ty) (names : List String),
    ty.mentionsAny names = true ↔ ∃ name ∈ ty.parameters, name ∈ names
  | named _ arguments _, names => anyMentions_iff arguments names
  | array element _, names => mentionsAny_iff element names
  | parameter name _, names => by simp [mentionsAny, parameters]
  | delegate inputs result _, names => by
      rw [mentionsAny, Bool.or_eq_true, anyMentions_iff inputs, mentionsAny_iff result]
      simp only [parameters, List.mem_append, or_and_right, exists_or]
  | value .., _ => by simp [mentionsAny, parameters]
  | dynamic _, _ => by simp [mentionsAny, parameters]
  | null _, _ => by simp [mentionsAny, parameters]
  | error .., _ => by simp [mentionsAny, parameters]

theorem anyMentions_iff : ∀ (list : List Ty) (names : List String),
    anyMentions names list = true ↔ ∃ name ∈ allParameters list, name ∈ names
  | [], _ => by simp [anyMentions, allParameters]
  | ty :: rest, names => by
      rw [anyMentions, Bool.or_eq_true, mentionsAny_iff ty, anyMentions_iff rest]
      simp only [allParameters, List.mem_append, or_and_right, exists_or]

end

section Substitute

variable (types : Instantiation)

/-- The name comes into a type in place of a parameter of it. A parameter that stands for no type
keeps its own name. -/
def Brings (name other : String) : Prop :=
  types name = none ∧ other = name ∨ ∃ bound, types name = some bound ∧ other ∈ bound.parameters

mutual

/-- The parameters of an instance are those that come with the types put in. -/
theorem mem_parameters_substitute : ∀ (ty : Ty) (other : String),
    other ∈ (ty.substitute types).parameters ↔ ∃ name ∈ ty.parameters, Brings types name other
  | named _ arguments _, other => mem_allParameters_substitute arguments other
  | array element _, other => mem_parameters_substitute element other
  | parameter name mark, other => by
      simp only [substitute, parameters, List.mem_singleton, exists_eq_left, Brings]
      cases types name with
      | none => simp [parameters]
      | some bound =>
          by_cases nullable : mark = .nullable
          · simp [nullable]
          · simp [nullable]
  | delegate inputs result _, other => by
      rw [substitute, parameters, List.mem_append, mem_allParameters_substitute inputs,
        mem_parameters_substitute result]
      simp only [parameters, List.mem_append, or_and_right, exists_or]
  | value .., _ => by simp [substitute, parameters]
  | dynamic _, _ => by simp [substitute, parameters]
  | null _, _ => by simp [substitute, parameters]
  | error .., _ => by simp [substitute, parameters]

theorem mem_allParameters_substitute : ∀ (list : List Ty) (other : String),
    other ∈ allParameters (substituteAll types list) ↔
      ∃ name ∈ allParameters list, Brings types name other
  | [], _ => by simp [substituteAll, allParameters]
  | ty :: rest, other => by
      rw [substituteAll, allParameters, List.mem_append, mem_parameters_substitute ty,
        mem_allParameters_substitute rest]
      simp only [allParameters, List.mem_append, or_and_right, exists_or]

end

end Substitute

end Names

/-- What comes in for an occurrence of a type parameter with the mark. -/
def under (mark : Mark) (bound : Ty) : Ty := if mark = .nullable then bound.marked .nullable else bound

section Parameter

variable {types : Instantiation} {name : String}

/-- A parameter with a type becomes the type, under the mark of the parameter. -/
theorem substitute_bound {bound : Ty} (isBound : types name = some bound) (mark : Mark) :
    (parameter name mark).substitute types = bound.under mark := by
  rw [substitute, isBound, under]

/-- A parameter without a type stays. -/
theorem substitute_free (free : types name = none) (mark : Mark) :
    (parameter name mark).substitute types = parameter name mark := by
  rw [substitute, free]

end Parameter

/-- A type that is marked nullable stays so under every substitution. -/
theorem substitute_marked_nullable (types : Instantiation) (ty : Ty) :
    (ty.marked .nullable).substitute types = (ty.substitute types).marked .nullable := by
  cases ty with
  | parameter name mark =>
      cases bound : types name with
      | none => rw [marked, substitute_free bound, substitute_free bound, marked]
      | some ty =>
          rw [marked, substitute_bound bound, substitute_bound bound, under, if_pos rfl, under]
          split
          · rw [marked_marked]
          · rfl
  | _ => rfl

/-- A substitution inside a bound may be made before or after the mark is put on. -/
theorem substitute_under (types : Instantiation) (mark : Mark) (bound : Ty) :
    (bound.under mark).substitute types = (bound.substitute types).under mark := by
  unfold under
  split
  · exact substitute_marked_nullable types bound
  · rfl

mutual

/-- The type parameters in the type with their marks, as often as they occur. -/
def occurrences : Ty → List (String × Mark)
  | named _ arguments _ => allOccurrences arguments
  | array element _ => occurrences element
  | parameter name mark => [(name, mark)]
  | delegate inputs result _ => allOccurrences inputs ++ occurrences result
  | value .. => []
  | dynamic _ => []
  | null _ => []
  | error .. => []

def allOccurrences : List Ty → List (String × Mark)
  | [] => []
  | ty :: rest => occurrences ty ++ allOccurrences rest

end

mutual

/-- Every occurrence of a parameter is counted once. -/
theorem map_occurrences : ∀ ty : Ty, ty.occurrences.map Prod.fst = ty.parameters
  | named _ arguments _ => map_allOccurrences arguments
  | array element _ => map_occurrences element
  | parameter .. => rfl
  | delegate inputs result _ => by
      rw [occurrences, List.map_append, map_allOccurrences inputs, map_occurrences result, parameters]
  | value .. => rfl
  | dynamic _ => rfl
  | null _ => rfl
  | error .. => rfl

theorem map_allOccurrences : ∀ list : List Ty,
    (allOccurrences list).map Prod.fst = allParameters list
  | [] => rfl
  | ty :: rest => by
      rw [allOccurrences, List.map_append, map_occurrences ty, map_allOccurrences rest, allParameters]

end

theorem mem_parameters_of_occurrence {ty : Ty} {occurrence : String × Mark}
    (occurs : occurrence ∈ ty.occurrences) : occurrence.1 ∈ ty.parameters :=
  ty.map_occurrences ▸ List.mem_map_of_mem occurs

section Equal

variable (first second : Instantiation)

/-- The substitutions give the occurrence the same result. -/
def SameAt (occurrence : String × Mark) : Prop :=
  (parameter occurrence.1 occurrence.2).substitute first =
    (parameter occurrence.1 occurrence.2).substitute second

mutual

/-- Substitutions give a type the same result if and only if they do so at every occurrence of a type
parameter. -/
theorem substitute_eq_iff : ∀ ty : Ty, ty.substitute first = ty.substitute second ↔
    ∀ occurrence ∈ ty.occurrences, SameAt first second occurrence
  | named _ arguments _ => by
      simp only [substitute, named.injEq, true_and, and_true]
      exact substituteAll_eq_iff arguments
  | array element _ => by
      simp only [substitute, array.injEq, and_true]
      exact substitute_eq_iff element
  | parameter name mark => by simp only [occurrences, List.mem_singleton, forall_eq, SameAt]
  | delegate inputs result _ => by
      simp only [substitute, delegate.injEq, and_true, occurrences, List.forall_mem_append,
        substituteAll_eq_iff inputs, substitute_eq_iff result]
  | value .. => by simp [substitute, occurrences]
  | dynamic _ => by simp [substitute, occurrences]
  | null _ => by simp [substitute, occurrences]
  | error .. => by simp [substitute, occurrences]

/-- Two substitutions agree on a list if they agree at every occurrence in it. -/
theorem substituteAll_eq_iff : ∀ list : List Ty,
    substituteAll first list = substituteAll second list ↔
      ∀ occurrence ∈ allOccurrences list, SameAt first second occurrence
  | [] => by simp [substituteAll, allOccurrences]
  | ty :: rest => by
      simp only [substituteAll, List.cons.injEq, allOccurrences, List.forall_mem_append,
        substitute_eq_iff ty, substituteAll_eq_iff rest]

end

variable {first second}

/-- Only the type parameters in the type matter to what a substitution makes of it. -/
theorem substitute_congr {ty : Ty} (same : ∀ name ∈ ty.parameters, first name = second name) :
    ty.substitute first = ty.substitute second := by
  rw [substitute_eq_iff]
  intro occurrence occurs
  rw [SameAt, substitute, substitute, same _ (mem_parameters_of_occurrence occurs)]

end Equal

mutual

/-- The identity changes no type. -/
theorem substitute_identity : ∀ ty : Ty, ty.substitute .identity = ty
  | named _ arguments _ => by rw [substitute, substituteAll_identity arguments]
  | array element _ => by rw [substitute, substitute_identity element]
  | parameter .. => rfl
  | delegate inputs result _ => by
      rw [substitute, substituteAll_identity inputs, substitute_identity result]
  | value .. => rfl
  | dynamic _ => rfl
  | null _ => rfl
  | error .. => rfl

theorem substituteAll_identity : ∀ list : List Ty, substituteAll .identity list = list
  | [] => rfl
  | ty :: rest => by rw [substituteAll, substitute_identity ty, substituteAll_identity rest]

end

/-- A substitution leaves a type alone if it has no type for the type parameters there. -/
theorem substitute_of_free {types : Instantiation} {ty : Ty}
    (free : ∀ name ∈ ty.parameters, types name = none) : ty.substitute types = ty :=
  (substitute_congr free).trans ty.substitute_identity

theorem substituteAll_eq_map (types : Instantiation) (list : List Ty) :
    substituteAll types list = list.map (substitute types) := by
  induction list with
  | nil => rfl
  | cons ty rest ih => rw [substituteAll, List.map_cons, ih]

end Ty

namespace Instantiation

/-- The second instantiation is applied to the types of the first one, and to the parameters for
which the first one has no type. -/
def andThen (first second : Instantiation) : Instantiation := fun name =>
  match first name with
  | some bound => some (bound.substitute second)
  | none => second name

section AndThen

variable {first : Instantiation} {name : String}

/-- What the first instantiation binds the second acts upon. -/
theorem andThen_bound {bound : Ty} (isBound : first name = some bound) (second : Instantiation) :
    first.andThen second name = some (bound.substitute second) := by
  rw [andThen, isBound]

/-- What the first instantiation leaves free the second binds. -/
theorem andThen_free (free : first name = none) (second : Instantiation) :
    first.andThen second name = second name := by
  rw [andThen, free]

/-- An instantiation that acts like two in a row is their composition. -/
theorem eq_andThen {second composed : Instantiation}
    (bound : ∀ name ty, first name = some ty → composed name = some (ty.substitute second))
    (free : ∀ name, first name = none → composed name = second name) :
    composed = first.andThen second := by
  funext name
  cases isBound : first name with
  | none => rw [free name isBound, andThen_free isBound]
  | some ty => rw [bound name ty isBound, andThen_bound isBound]

end AndThen

/-- A change of the types at the positions changes the types that the parameters stand for. -/
theorem ofLists_map (change : Ty → Ty) (parameters : List String) (types : List Ty) (name : String) :
    ofLists parameters (types.map change) name = (ofLists parameters types name).map change := by
  rw [ofLists, ofLists, List.zip_map_right, ← List.map_reverse]
  generalize (parameters.zip types).reverse = bindings
  induction bindings with
  | nil => rfl
  | cons binding rest ih =>
      obtain ⟨bound, ty⟩ := binding
      rw [List.map_cons, Prod.map, id, List.lookup_cons, List.lookup_cons]
      cases name == bound with
      | true => rfl
      | false => exact ih

/-- Every parameter stands for a type if there is one for each. -/
theorem exists_ofLists {parameters : List String} {types : List Ty} {name : String}
    (enough : types.length = parameters.length) (member : name ∈ parameters) :
    ∃ bound, ofLists parameters types name = some bound := by
  have paired : name ∈ (parameters.zip types).map Prod.fst := by
    rw [List.map_fst_zip (Nat.le_of_eq enough.symm)]
    exact member
  obtain ⟨binding, inside, rfl⟩ := List.mem_map.mp paired
  rw [← Option.isSome_iff_exists, ofLists, List.lookup_isSome_iff]
  exact ⟨binding, List.mem_reverse.mpr inside, beq_self_eq_true _⟩

/-- Only the parameters stand for types, and only for those that are given. -/
theorem mem_of_ofLists {parameters : List String} {types : List Ty} {name : String} {bound : Ty}
    (isBound : ofLists parameters types name = some bound) : name ∈ parameters ∧ bound ∈ types := by
  obtain ⟨before, after, split, -⟩ := List.lookup_eq_some_iff.mp isBound
  apply List.of_mem_zip
  rw [← List.mem_reverse, split]
  exact List.mem_append_right _ List.mem_cons_self

end Instantiation

namespace Ty

mutual

/-- Two substitutions one after the other are one. -/
theorem substitute_andThen (first second : Instantiation) : ∀ ty : Ty,
    (ty.substitute first).substitute second = ty.substitute (first.andThen second)
  | named _ arguments _ => by
      rw [substitute, substitute, substitute, substituteAll_andThen first second arguments]
  | array element _ => by
      rw [substitute, substitute, substitute, substitute_andThen first second element]
  | parameter name mark => by
      cases isBound : first name with
      | none =>
          rw [substitute_free isBound, substitute, substitute,
            Instantiation.andThen_free isBound second]
      | some bound =>
          rw [substitute_bound isBound, substitute_under,
            substitute_bound (Instantiation.andThen_bound isBound second)]
  | delegate inputs result _ => by
      rw [substitute, substitute, substitute, substituteAll_andThen first second inputs,
        substitute_andThen first second result]
  | value .. => rfl
  | dynamic _ => rfl
  | null _ => rfl
  | error .. => rfl

/-- Two substitutions in a row are one, on lists. -/
theorem substituteAll_andThen (first second : Instantiation) : ∀ list : List Ty,
    substituteAll second (substituteAll first list) = substituteAll (first.andThen second) list
  | [] => rfl
  | ty :: rest => by
      rw [substituteAll, substituteAll, substituteAll, substitute_andThen first second ty,
        substituteAll_andThen first second rest]

end

section Mentions

variable {types : Instantiation} {ty : Ty} {names : List String}

theorem mentionsAny_eq_false : ty.mentionsAny names = false ↔ ∀ name ∈ ty.parameters, name ∉ names := by
  rw [Bool.eq_false_iff, Ne, mentionsAny_iff]
  simp only [not_exists, not_and]

/-- A substitution for parameters that the type does not mention leaves it alone. -/
theorem substitute_of_not_mentions (free : ty.mentionsAny names = false)
    (keys : ∀ name bound, types name = some bound → name ∈ names) : ty.substitute types = ty := by
  apply substitute_of_free
  intro name occurs
  rw [Option.eq_none_iff_forall_ne_some]
  intro bound isBound
  exact mentionsAny_eq_false.mp free name occurs (keys name bound isBound)

/-- No name is left if all of them are replaced and none comes in with what replaces them. -/
theorem not_mentions_substitute (replaced : ∀ name ∈ names, ∃ bound, types name = some bound)
    (apart : ∀ name bound, types name = some bound → bound.mentionsAny names = false) :
    (ty.substitute types).mentionsAny names = false := by
  rw [mentionsAny_eq_false]
  intro other inside listed
  obtain ⟨name, -, brings⟩ := (mem_parameters_substitute types ty other).mp inside
  rcases brings with ⟨free, rfl⟩ | ⟨bound, isBound, inBound⟩
  · obtain ⟨bound, isBound⟩ := replaced other listed
    rw [free] at isBound
    cases isBound
  · exact mentionsAny_eq_false.mp (apart name bound isBound) other inBound listed

end Mentions

end Ty

/-- Two substitutions in a row are the one that puts the second into the types of the first and adds
the rest of the second. A substitution for names that a type does not mention does nothing, and one for
all of the names that brings none of them in leaves none. -/
theorem substitutions_compose (ty : Ty) :
    (∀ first second composed : Instantiation,
      (∀ name bound, first name = some bound → composed name = some (bound.substitute second)) →
      (∀ name, first name = none → composed name = second name) →
      (ty.substitute first).substitute second = ty.substitute composed) ∧
    (∀ (types : Instantiation) (names : List String), ty.mentionsAny names = false →
      (∀ name bound, types name = some bound → name ∈ names) → ty.substitute types = ty) ∧
    ∀ (types : Instantiation) (names : List String),
      (∀ name ∈ names, ∃ bound, types name = some bound) →
      (∀ name bound, types name = some bound → bound.mentionsAny names = false) →
      (ty.substitute types).mentionsAny names = false := by
  refine ⟨fun first second composed bound free => ?_, fun types names free keys => ?_,
    fun types names replaced apart => ?_⟩
  · rw [Instantiation.eq_andThen bound free]
    exact ty.substitute_andThen first second
  · exact Ty.substitute_of_not_mentions free keys
  · exact Ty.not_mentions_substitute replaced apart

section Example

/-- A pair of an array, the items of which are some `T` or null, and a function from `U` to `T`. -/
def mixedParameters : Ty := .named "Pair" [.array (.parameter "T" .nullable) .plain,
  .delegate [.parameter "U" .plain] (.parameter "T" .plain) .plain] .plain

/-- Lists of `U` stand for `T`, and then objects that may be null for `U`. Neither name is left. -/
theorem mixedParameters_composed :
    let lists := Instantiation.ofLists ["T"] [.named "List" [.parameter "U" .plain] .plain]
    let objects := Instantiation.ofLists ["U"] [.named "object" [] .nullable]
    let both := Instantiation.ofLists ["T", "U"]
      [.named "List" [.named "object" [] .nullable] .plain, .named "object" [] .nullable]
    (mixedParameters.substitute lists).substitute objects = mixedParameters.substitute both ∧
      mixedParameters.mentionsAny ["V"] = false ∧
      mixedParameters.substitute (.ofLists ["V"] [.named "object" [] .plain]) = mixedParameters ∧
      (mixedParameters.substitute both).mentionsAny ["T", "U"] = false := by
  intro lists objects both
  obtain ⟨composes, unmentioned, replaced⟩ := substitutions_compose mixedParameters
  have bound : ∀ name ty, lists name = some ty → both name = some (ty.substitute objects) := by
    intro name ty isBound
    obtain rfl := List.mem_singleton.mp (Instantiation.mem_of_ofLists isBound).1
    cases isBound
    rfl
  have free : ∀ name, lists name = none → both name = objects name := by
    intro name isFree
    have other : (name == "T") = false := by
      rw [beq_eq_false_iff_ne]
      rintro rfl
      cases isFree
    simp [both, objects, Instantiation.ofLists, List.lookup_cons, other]
  have absent : mixedParameters.mentionsAny ["V"] = false := by decide +kernel
  have apart : ∀ name ty, both name = some ty → ty.mentionsAny ["T", "U"] = false := by
    intro name ty isBound
    rcases List.mem_cons.mp (Instantiation.mem_of_ofLists isBound).2 with rfl | last
    · rfl
    · obtain rfl := List.mem_singleton.mp last
      rfl
  refine ⟨composes lists objects both bound free, absent, ?_, ?_⟩
  · exact unmentioned _ ["V"] absent fun name ty isBound => (Instantiation.mem_of_ofLists isBound).1
  · exact replaced both ["T", "U"] (fun name listed => Instantiation.exists_ofLists rfl listed) apart

end Example

end NullFlow
