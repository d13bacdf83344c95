import Mathlib.Logic.Relation
import NullFlow.Proofs.Types.Flat
/-!
Conversions that lose nullability, and the erasure of nested marks. A type loses nullability on the
way to some target if and only if it shows a mark: a conversion compares one of the types inside it,
and the mark of that type is not oblivious.

The erasure makes the marks of type arguments and array elements oblivious, at any depth. Two kinds
of marks resist it: those inside delegates, which stay as they are, and those that the declaration of
a base class writes, which do not occur in the type.
-/

namespace NullFlow

namespace Mark

theorem agrees_self (mark : Mark) : mark.agrees mark = true := by
  cases mark <;> rfl

/-- A mark that promises something differs from another one. -/
theorem exists_disagreeing {mark : Mark} (promises : mark ≠ .oblivious) :
    ∃ other : Mark, mark.agrees other = false := by
  cases mark with
  | plain => exact ⟨.nullable, rfl⟩
  | nullable => exact ⟨.plain, rfl⟩
  | notNullable => exact ⟨.nullable, rfl⟩
  | oblivious => exact absurd rfl promises

/-- Only a mark that promises something disagrees with another. -/
theorem promises_of_disagreeing {mark other : Mark} (differ : mark.agrees other = false) :
    mark ≠ .oblivious := by
  rintro rfl
  cases differ

end Mark

namespace Ty

@[simp] theorem mark_marked (ty : Ty) (mark : Mark) : (ty.marked mark).mark = mark := by
  cases ty <;> rfl

@[simp] theorem marked_marked (ty : Ty) (first second : Mark) :
    (ty.marked first).marked second = ty.marked second := by
  cases ty <;> rfl

/-- There are no types inside the type. -/
def isAtom : Ty → Bool
  | named .. => false
  | array .. => false
  | delegate .. => false
  | value .. => true
  | parameter .. => true
  | dynamic _ => true
  | null _ => true
  | error .. => true

end Ty

namespace ClassTable

variable (classes : ClassTable)

/-- A named type is an instance of its own class. -/
theorem instance?_self (name : String) (arguments : List Ty) (mark : Mark) :
    classes.instance? (.named name arguments mark) name = some (.named name arguments mark) := by
  rw [instance?, searchDepth, ancestor?, if_pos rfl]

/-- A type of which the class extends none is an instance of its own class alone. -/
theorem instance?_eq_none {name owner : String} {arguments : List Ty} {mark : Mark}
    (extendsNone : classes.base? (.named name arguments mark) = none) (differ : owner ≠ name) :
    classes.instance? (.named name arguments mark) owner = none := by
  rw [instance?, searchDepth, ancestor?, if_neg (Ne.symm differ), extendsNone]
  rfl

/-- Only named types are instances of classes. -/
theorem named_of_instance? {ty seen : Ty} {owner : String}
    (view : classes.instance? ty owner = some seen) :
    ∃ name arguments mark, ty = .named name arguments mark := by
  cases ty with
  | named name arguments mark => exact ⟨name, arguments, mark, rfl⟩
  | _ => cases view

/-- The view of a type as an instance of a class is a type of the class. -/
theorem exists_named_of_ancestor? {owner : String} {steps : Nat} {ty seen : Ty}
    (view : classes.ancestor? owner steps ty = some seen) :
    ∃ arguments mark, seen = .named owner arguments mark := by
  induction steps generalizing ty with
  | zero => cases view
  | succ steps ih =>
      cases ty with
      | named name arguments mark =>
          rw [ancestor?] at view
          split at view
          · rename_i same
            obtain rfl := Option.some.inj view
            exact ⟨arguments, mark, by rw [same]⟩
          · obtain ⟨base, -, view⟩ := Option.bind_eq_some_iff.mp view
            exact ih view
      | _ => cases view

section Nested

variable {classes} {answer : Conversion} {source target : Ty}

theorem nested_ok (agree : source.mark.agrees target.mark = true) :
    nested answer source target = answer := if_pos agree

/-- A nested position loses nullability inside, or in its own marks. -/
theorem nested_losesNullability :
    nested answer source target = .losesNullability ↔
      answer = .losesNullability ∨ answer = .ok ∧ source.mark.agrees target.mark = false := by
  rw [nested]
  cases source.mark.agrees target.mark <;> cases answer <;> decide

/-- If two answers lose nullability together, one of them does. -/
theorem worst_losesNullability {first second : Conversion}
    (loses : first.worst second = .losesNullability) :
    first = .losesNullability ∨ second = .losesNullability := by
  cases first <;> cases second <;> first | exact .inl rfl | exact .inr rfl | cases loses

end Nested

mutual

/-- Every type converts to itself. -/
theorem classify_self : ∀ ty : Ty, classes.classify ty ty = .ok
  | .named name arguments mark => by
      simp only [classify, instance?_self, Ty.arguments, classifyAll_self arguments, ite_self]
  | .array element mark => by
      simp only [classify, nested_ok element.mark.agrees_self, classify_self element]
  | .delegate parameters result mark => by
      simp only [classify, nested_ok result.mark.agrees_self, classify_self result,
        classifyAll_self parameters, Conversion.worst]
  | .value name mark => by simp only [classify, if_true]
  | .parameter name mark => by simp only [classify, if_true]
  | .dynamic _ => rfl
  | .null _ => rfl
  | .error .. => rfl

/-- A list of types converts well to itself. -/
theorem classifyAll_self : ∀ types : List Ty, classes.classifyAll types types = .ok
  | [] => rfl
  | ty :: rest => by
      rw [classifyAll, nested_ok ty.mark.agrees_self, classify_self ty, classifyAll_self rest]
      rfl

end

/-- The second type is inside the first one, at a place that conversions of the first one compare.
The type arguments are those of the class and of every class that it extends. -/
inductive Compares : Ty → Ty → Prop where
  | argument {ty seen inner : Ty} {owner : String} :
      classes.instance? ty owner = some seen → inner ∈ seen.arguments → Compares ty inner
  | element {element : Ty} {mark : Mark} : Compares (.array element mark) element
  | parameter {parameters : List Ty} {result inner : Ty} {mark : Mark} :
      inner ∈ parameters → Compares (.delegate parameters result mark) inner
  | result {parameters : List Ty} {result : Ty} {mark : Mark} :
      Compares (.delegate parameters result mark) result

/-- A mark inside the type promises something, and conversions of the type compare it. -/
def Shows (ty : Ty) : Prop :=
  ∃ inner, Relation.TransGen classes.Compares ty inner ∧ inner.mark ≠ .oblivious

variable {classes}

/-- A mark that is shown is one of a type directly inside, or is shown by such a type. -/
theorem shows_iff {ty : Ty} :
    classes.Shows ty ↔
      ∃ inner, classes.Compares ty inner ∧ (inner.mark ≠ .oblivious ∨ classes.Shows inner) := by
  constructor
  · rintro ⟨inner, path, promises⟩
    obtain ⟨first, compared, rest⟩ := Relation.TransGen.head'_iff.mp path
    refine ⟨first, compared, ?_⟩
    rcases Relation.reflTransGen_iff_eq_or_transGen.mp rest with rfl | deeper
    · exact .inl promises
    · exact .inr ⟨inner, deeper, promises⟩
  · rintro ⟨first, compared, promises | ⟨inner, path, promises⟩⟩
    · exact ⟨first, .single compared, promises⟩
    · exact ⟨inner, .head compared path, promises⟩

/-- A type without types inside shows no marks. -/
theorem not_shows_of_isAtom {ty : Ty} (atom : ty.isAtom = true) : ¬classes.Shows ty := by
  intro shows
  obtain ⟨inner, compared, _⟩ := shows_iff.mp shows
  cases compared with
  | argument view _ =>
      obtain ⟨name, arguments, mark, rfl⟩ := named_of_instance? classes view
      cases atom
  | element => cases atom
  | parameter => cases atom
  | result => cases atom

section Loss

/-- A check of a nested position finds a difference for some target. -/
theorem exists_nested_losesNullability {inner : Ty}
    (shown : inner.mark ≠ .oblivious ∨
      ∃ target, classes.classify inner target = .losesNullability) :
    ∃ target, nested (classes.classify inner target) inner target = .losesNullability := by
  rcases shown with promises | ⟨target, loses⟩
  · obtain ⟨other, differ⟩ := Mark.exists_disagreeing promises
    refine ⟨inner.marked other, nested_losesNullability.mpr (.inr ⟨?_, ?_⟩)⟩
    · rw [classify_target_marked, classify_self]
    · rw [Ty.mark_marked, differ]
  · exact ⟨target, nested_losesNullability.mpr (.inl loses)⟩

/-- If a position of a list loses nullability for some target, so does the list. The other positions
convert to themselves. -/
theorem exists_classifyAll_losesNullability {inner target : Ty} {types : List Ty}
    (member : inner ∈ types)
    (loses : nested (classes.classify inner target) inner target = .losesNullability) :
    ∃ targets, classes.classifyAll types targets = .losesNullability := by
  induction types with
  | nil => cases member
  | cons first rest ih =>
      rcases List.mem_cons.mp member with rfl | inRest
      · refine ⟨target :: rest, ?_⟩
        rw [classifyAll, loses, classifyAll_self]
        rfl
      · obtain ⟨targets, found⟩ := ih inRest
        refine ⟨first :: targets, ?_⟩
        rw [classifyAll, nested_ok first.mark.agrees_self, classify_self, found]
        rfl

/-- If a type inside loses nullability for some target, so does the type around it. -/
theorem Compares.exists_losesNullability {ty inner target : Ty} (compared : classes.Compares ty inner)
    (loses : nested (classes.classify inner target) inner target = .losesNullability) :
    ∃ around, classes.classify ty around = .losesNullability := by
  cases compared with
  | @argument ty seen inner owner view member =>
      obtain ⟨targets, found⟩ := exists_classifyAll_losesNullability member loses
      obtain ⟨name, arguments, mark, rfl⟩ := named_of_instance? classes view
      refine ⟨.named owner targets .plain, ?_⟩
      have nonempty : targets.isEmpty = false := by
        cases targets with
        | nil => cases isEmpty : seen.arguments <;> simp [isEmpty, classifyAll] at member found
        | cons => rfl
      simp only [classify, nonempty, Bool.and_false, view, found, if_neg Bool.false_ne_true]
  | element => exact ⟨.array target .plain, by simp only [classify, loses]⟩
  | @parameter parameters result _ mark member =>
      obtain ⟨targets, found⟩ := exists_classifyAll_losesNullability member loses
      refine ⟨.delegate targets result .plain, ?_⟩
      simp only [classify, found, nested_ok result.mark.agrees_self, classify_self, Conversion.worst]
  | @result parameters result mark =>
      refine ⟨.delegate parameters target .plain, ?_⟩
      simp only [classify, loses, classifyAll_self, Conversion.worst]

/-- A type that shows marks inside loses them in a conversion to some target. -/
theorem exists_losesNullability_of_shows {ty : Ty} (shows : classes.Shows ty) :
    ∃ target, classes.classify ty target = .losesNullability := by
  obtain ⟨inner, path, promises⟩ := shows
  induction path using Relation.TransGen.head_induction_on with
  | single compared =>
      obtain ⟨target, loses⟩ := exists_nested_losesNullability (.inl promises)
      exact compared.exists_losesNullability loses
  | head compared _ ih =>
      obtain ⟨target, loses⟩ := exists_nested_losesNullability (.inr ih)
      exact compared.exists_losesNullability loses

mutual

-- The induction is on the target, through which a conversion recurses. The source can grow on the
-- way, because a class may extend one with larger type arguments.
/-- Only a type that shows marks inside loses them in a conversion. -/
theorem shows_of_losesNullability : ∀ (target source : Ty),
    classes.classify source target = .losesNullability → classes.Shows source
  | .named name arguments mark, source, loses => by
      cases source with
      | named other others former =>
          simp only [classify] at loses
          split at loses
          · cases loses
          · cases view : classes.instance? (.named other others former) name with
            | none => simp [view] at loses
            | some seen =>
                simp only [view] at loses
                obtain ⟨inner, member, shown⟩ :=
                  showsAll_of_losesNullability arguments seen.arguments loses
                exact shows_iff.mpr ⟨inner, .argument view member, shown⟩
      | value => cases loses
      | dynamic => cases loses
      | null => cases loses
      | error => cases loses
      | array element former =>
          simp only [classify] at loses
          split at loses <;> cases loses
      | parameter other former =>
          simp only [classify] at loses
          split at loses <;> cases loses
      | delegate parameters result former =>
          simp only [classify] at loses
          split at loses <;> cases loses
  | .array target mark, source, loses => by
      cases source with
      | array element former =>
          refine shows_iff.mpr ⟨element, .element, ?_⟩
          rcases nested_losesNullability.mp loses with deeper | ⟨_, differ⟩
          · exact .inr (shows_of_losesNullability target element deeper)
          · exact .inl (Mark.promises_of_disagreeing differ)
      | _ => cases loses
  | .delegate parameters target mark, source, loses => by
      cases source with
      | delegate others result former =>
          rcases worst_losesNullability loses with inParameters | inResult
          · obtain ⟨inner, member, shown⟩ :=
              showsAll_of_losesNullability parameters others inParameters
            exact shows_iff.mpr ⟨inner, .parameter member, shown⟩
          · refine shows_iff.mpr ⟨result, .result, ?_⟩
            rcases nested_losesNullability.mp inResult with deeper | ⟨_, differ⟩
            · exact .inr (shows_of_losesNullability target result deeper)
            · exact .inl (Mark.promises_of_disagreeing differ)
      | _ => cases loses
  | .value name mark, source, loses => absurd loses (classify_basic classes rfl source)
  | .null mark, source, loses => absurd loses (classify_basic classes rfl source)
  | .parameter name mark, source, loses => by
      cases source with
      | parameter other former =>
          simp only [classify] at loses
          split at loses <;> cases loses
      | _ => cases loses
  | .dynamic _, _, loses => by cases loses
  | .error .., _, loses => by cases loses

theorem showsAll_of_losesNullability : ∀ targets sources : List Ty,
    classes.classifyAll sources targets = .losesNullability →
    ∃ inner ∈ sources, inner.mark ≠ .oblivious ∨ classes.Shows inner
  | [], sources, loses => by cases sources <;> cases loses
  | target :: targets, sources, loses => by
      cases sources with
      | nil => cases loses
      | cons source rest =>
          rcases worst_losesNullability loses with atFirst | inRest
          · refine ⟨source, List.mem_cons_self, ?_⟩
            rcases nested_losesNullability.mp atFirst with deeper | ⟨_, differ⟩
            · exact .inr (shows_of_losesNullability target source deeper)
            · exact .inl (Mark.promises_of_disagreeing differ)
          · obtain ⟨inner, member, shown⟩ := showsAll_of_losesNullability targets rest inRest
            exact ⟨inner, List.mem_cons_of_mem _ member, shown⟩

end

/-- A type loses nullability on the way to some target if and only if it shows a mark. -/
theorem exists_losesNullability_iff (ty : Ty) :
    (∃ target, classes.classify ty target = .losesNullability) ↔ classes.Shows ty :=
  ⟨fun ⟨target, loses⟩ => shows_of_losesNullability target ty loses,
    exists_losesNullability_of_shows⟩

/-- The mark at the top is none of those that a type shows. -/
theorem shows_marked (ty : Ty) (mark : Mark) :
    classes.Shows (ty.marked mark) ↔ classes.Shows ty := by
  rw [← exists_losesNullability_iff, ← exists_losesNullability_iff]
  simp only [classify_source_marked]

end Loss

/-- The type shows a mark that its erasure does not reach. -/
inductive Resists (classes : ClassTable) : Ty → Prop where
  | delegate {parameters : List Ty} {result : Ty} {mark : Mark} :
      classes.Shows (.delegate parameters result mark) → Resists classes (.delegate parameters result mark)
  /-- The base class has a type argument that is not erased, although those of the type are. -/
  | base {name owner : String} {arguments : List Ty} {mark : Mark} {seen inner : Ty} :
      owner ≠ name →
      classes.instance? (.named name (Ty.obliviousAll arguments) mark) owner = some seen →
      inner ∈ seen.arguments → (inner.mark ≠ .oblivious ∨ classes.Shows inner) →
      Resists classes (.named name arguments mark)
  | argument {name : String} {arguments : List Ty} {mark : Mark} {inner : Ty} :
      inner ∈ arguments → Resists classes inner → Resists classes (.named name arguments mark)
  | element {element : Ty} {mark : Mark} :
      Resists classes element → Resists classes (.array element mark)

/-- The arguments of an erased type are the erased arguments. -/
theorem mem_obliviousAll {inner : Ty} {arguments : List Ty} :
    inner ∈ Ty.obliviousAll arguments ↔
      ∃ argument ∈ arguments, inner = argument.obliviousNested.oblivious := by
  induction arguments with
  | nil => simp [Ty.obliviousAll]
  | cons first rest ih => simp [Ty.obliviousAll, ih]

variable {classes : ClassTable}

/-- A type that shows a mark although it is made oblivious at the top shows it further inside. -/
theorem shows_of_oblivious {ty : Ty}
    (shown : ty.oblivious.mark ≠ .oblivious ∨ classes.Shows ty.oblivious) : classes.Shows ty := by
  rcases shown with promises | shows
  · exact absurd (ty.mark_marked .oblivious) promises
  · exact (shows_marked ty .oblivious).mp shows

/-- A type that resists erasure shows marks after it. -/
theorem Resists.shows_erased {ty : Ty} (resists : classes.Resists ty) :
    classes.Shows ty.obliviousNested := by
  induction resists with
  | delegate shows => exact shows
  | base _ view member shown => exact shows_iff.mpr ⟨_, .argument view member, shown⟩
  | @argument name arguments mark inner member _ ih =>
      refine shows_iff.mpr ⟨inner.obliviousNested.oblivious, ?_, .inr ((shows_marked _ _).mpr ih)⟩
      exact .argument (classes.instance?_self ..) (mem_obliviousAll.mpr ⟨inner, member, rfl⟩)
  | element _ ih =>
      exact shows_iff.mpr ⟨_, .element, .inr ((shows_marked _ _).mpr ih)⟩

mutual

/-- Only a type that resists erasure shows marks after it. -/
theorem resists_of_shows_erased : ∀ ty : Ty, classes.Shows ty.obliviousNested → classes.Resists ty
  | .named name arguments mark, shows => by
      obtain ⟨inner, compared, shown⟩ := shows_iff.mp shows
      cases compared with
      | @argument _ seen _ owner view member =>
          by_cases own : owner = name
          · subst own
            rw [Ty.obliviousNested, instance?_self] at view
            obtain rfl := Option.some.inj view
            obtain ⟨argument, inside, rfl⟩ := mem_obliviousAll.mp member
            have erased := shows_of_oblivious shown
            exact .argument inside (resistsAll_of_shows_erased arguments argument inside erased)
          · exact .base own view member shown
  | .array element mark, shows => by
      obtain ⟨inner, compared, shown⟩ := shows_iff.mp shows
      cases compared with
      | argument view _ => cases view
      | element => exact .element (resists_of_shows_erased element (shows_of_oblivious shown))
  | .delegate parameters result mark, shows => .delegate shows
  | .value name mark, shows => absurd shows (not_shows_of_isAtom rfl)
  | .parameter name mark, shows => absurd shows (not_shows_of_isAtom rfl)
  | .dynamic mark, shows => absurd shows (not_shows_of_isAtom rfl)
  | .null mark, shows => absurd shows (not_shows_of_isAtom rfl)
  | .error name mark, shows => absurd shows (not_shows_of_isAtom rfl)

theorem resistsAll_of_shows_erased : ∀ arguments : List Ty, ∀ argument ∈ arguments,
    classes.Shows argument.obliviousNested → classes.Resists argument
  | [], _, member, _ => by cases member
  | first :: rest, argument, member, shows => by
      rcases List.mem_cons.mp member with same | inRest
      · exact same ▸ resists_of_shows_erased first (same ▸ shows)
      · exact resistsAll_of_shows_erased rest argument inRest shows

end

/-- The erasure of a type loses nullability on the way to some target if and only if the type shows
a mark that the erasure does not reach. -/
theorem erased_losesNullability_iff (ty : Ty) :
    (∃ target, classes.classify ty.obliviousNested target = .losesNullability) ↔
      classes.Resists ty := by
  rw [exists_losesNullability_iff]
  exact ⟨resists_of_shows_erased ty, Resists.shows_erased⟩

end ClassTable

end NullFlow
