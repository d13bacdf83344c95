import NullFlow.Proofs.Types.Positions
import NullFlow.Proofs.Types.Substitution
/-!
Marks and conversions. Whether a type converts to another one does not depend on the marks of the two,
and so the common type of some candidates is chosen by their shapes. Between types that are equal up to
marks, a conversion loses nullability if and only if the marks disagree at some nested position.
-/

namespace NullFlow

namespace Ty

theorem unmarked_marked (mark : Mark) (ty : Ty) : (ty.marked mark).unmarked = ty.unmarked := by
  cases ty <;> rfl

/-- A bound under a mark differs from the bound in marks alone. -/
theorem unmarked_under (mark : Mark) (bound : Ty) : (bound.under mark).unmarked = bound.unmarked := by
  unfold under
  split
  · exact unmarked_marked .nullable bound
  · rfl

theorem arguments_unmarked (ty : Ty) : ty.unmarked.arguments = unmarkedAll ty.arguments := by
  cases ty <;> rfl

theorem isNull_unmarked (ty : Ty) : ty.unmarked.isNull = ty.isNull := by
  cases ty <;> rfl

theorem isEmpty_unmarkedAll (types : List Ty) : (unmarkedAll types).isEmpty = types.isEmpty := by
  cases types <;> rfl

mutual

theorem unmarked_unmarked : ∀ ty : Ty, ty.unmarked.unmarked = ty.unmarked
  | named _ arguments _ => by rw [unmarked, unmarked, unmarkedAll_unmarkedAll arguments]
  | array element _ => by rw [unmarked, unmarked, unmarked_unmarked element]
  | delegate inputs result _ => by
      rw [unmarked, unmarked, unmarkedAll_unmarkedAll inputs, unmarked_unmarked result]
  | parameter .. => rfl
  | value .. => rfl
  | dynamic _ => rfl
  | null _ => rfl
  | error .. => rfl

theorem unmarkedAll_unmarkedAll : ∀ list : List Ty, unmarkedAll (unmarkedAll list) = unmarkedAll list
  | [] => rfl
  | ty :: rest => by
      rw [unmarkedAll, unmarkedAll, unmarked_unmarked ty, unmarkedAll_unmarkedAll rest]

end

section Substitute

variable {first second : Instantiation}

mutual

/-- The marks in what type parameters stand for decide about nothing but marks. -/
theorem unmarked_substitute_congr
    (alike : ∀ name, (first name).map unmarked = (second name).map unmarked) : ∀ ty : Ty,
    (ty.substitute first).unmarked = (ty.substitute second).unmarked
  | named _ arguments _ => by
      rw [substitute, substitute, unmarked, unmarked, unmarkedAll_substitute_congr alike arguments]
  | array element _ => by
      rw [substitute, substitute, unmarked, unmarked, unmarked_substitute_congr alike element]
  | parameter name mark => by
      have alikeHere := alike name
      cases ofFirst : first name <;> cases ofSecond : second name <;>
        rw [ofFirst, ofSecond] at alikeHere
      · rw [substitute_free ofFirst, substitute_free ofSecond]
      · cases alikeHere
      · cases alikeHere
      · rw [substitute_bound ofFirst, substitute_bound ofSecond, unmarked_under, unmarked_under]
        exact Option.some.inj alikeHere
  | delegate inputs result _ => by
      rw [substitute, substitute, unmarked, unmarked, unmarkedAll_substitute_congr alike inputs,
        unmarked_substitute_congr alike result]
  | value .. => rfl
  | dynamic _ => rfl
  | null _ => rfl
  | error .. => rfl

/-- Substitutions that differ in marks alone give types that do. -/
theorem unmarkedAll_substitute_congr
    (alike : ∀ name, (first name).map unmarked = (second name).map unmarked) : ∀ list : List Ty,
    unmarkedAll (substituteAll first list) = unmarkedAll (substituteAll second list)
  | [] => rfl
  | ty :: rest => by
      rw [substituteAll, substituteAll, unmarkedAll, unmarkedAll, unmarked_substitute_congr alike ty,
        unmarkedAll_substitute_congr alike rest]

end

end Substitute

end Ty

namespace ClassTable

variable (classes : ClassTable)

/-- Marks never make a nested position incompatible. -/
theorem nested_incompatible {answer : Conversion} {source target : Ty} :
    nested answer source target = .incompatible ↔ answer = .incompatible := by
  rw [nested]
  split
  · rfl
  · cases answer <;> decide

/-- Two answers are incompatible together if one of them is. -/
theorem worst_incompatible {first second : Conversion} :
    first.worst second = .incompatible ↔ first = .incompatible ∨ second = .incompatible := by
  cases first <;> cases second <;> decide

/-- Types that differ in marks alone have such bases. -/
theorem unmarked_base? (ty : Ty) :
    (classes.base? ty.unmarked).map Ty.unmarked = (classes.base? ty).map Ty.unmarked := by
  cases ty with
  | named name arguments mark =>
      simp only [Ty.unmarked, base?, Option.bind_eq_bind, Option.pure_def]
      cases SortedMap.get? classes name with
      | none => rfl
      | some declaration =>
          cases isBase : declaration.base? with
          | none => simp [isBase]
          | some base =>
              simp only [Option.bind_some, isBase, Option.map_some, Option.some.injEq]
              refine Ty.unmarked_substitute_congr (fun parameter => ?_) base
              rw [Ty.unmarkedAll_eq_map, Instantiation.ofLists_map, Option.map_map]
              exact congrArg (Option.map · _) (funext Ty.unmarked_unmarked)
  | _ => rfl

/-- Types that differ in marks alone have such ancestors. -/
theorem unmarked_ancestor? (owner : String) (steps : Nat) (ty : Ty) :
    (classes.ancestor? owner steps ty.unmarked).map Ty.unmarked =
      (classes.ancestor? owner steps ty).map Ty.unmarked := by
  induction steps generalizing ty with
  | zero => rfl
  | succ steps ih =>
      cases ty with
      | named name arguments mark =>
          have sameBase := classes.unmarked_base? (.named name arguments mark)
          rw [Ty.unmarked] at sameBase
          rw [Ty.unmarked, ancestor?, ancestor?]
          split
          · exact congrArg some (Ty.unmarked_unmarked (.named name arguments mark))
          · -- The two bases may differ in marks, so each is compared with the one without marks.
            generalize classes.base? (.named name (Ty.unmarkedAll arguments) .plain) = first at *
            generalize classes.base? (.named name arguments mark) = second at *
            cases first <;> cases second
            · rfl
            · cases sameBase
            · cases sameBase
            · have same := Option.some.inj sameBase
              rw [Option.bind_some, Option.bind_some, ← ih, same, ih]
      | _ => rfl

/-- The view of a type as an instance of a class depends on the marks of the type in marks alone. -/
theorem unmarked_instance? (ty : Ty) (owner : String) :
    (classes.instance? ty.unmarked owner).map Ty.unmarked =
      (classes.instance? ty owner).map Ty.unmarked :=
  classes.unmarked_ancestor? owner searchDepth ty

mutual

/-- Neither the marks of the source nor those of the target decide whether a type converts. -/
theorem classify_unmarked : ∀ target source : Ty,
    (classes.classify source.unmarked target = .incompatible ↔
      classes.classify source target = .incompatible) ∧
    (classes.classify source target.unmarked = .incompatible ↔
      classes.classify source target = .incompatible)
  | .named name arguments mark, source => by
      cases source with
      | named other others former =>
          have view := classes.unmarked_instance? (.named other others former) name
          simp only [Ty.unmarked] at view
          simp only [Ty.unmarked, classify, Ty.isEmpty_unmarkedAll]
          split
          · exact ⟨Iff.rfl, Iff.rfl⟩
          · generalize classes.instance? (.named other (Ty.unmarkedAll others) .plain) name = first
              at *
            generalize classes.instance? (.named other others former) name = second at *
            cases first <;> cases second
            · exact ⟨Iff.rfl, Iff.rfl⟩
            · cases view
            · cases view
            · rename_i first second
              have same := congrArg Ty.arguments (Option.some.inj view)
              rw [Ty.arguments_unmarked, Ty.arguments_unmarked] at same
              refine ⟨?_, (classifyAll_unmarked arguments second.arguments).2⟩
              simp only
              rw [← (classifyAll_unmarked arguments first.arguments).1, same,
                (classifyAll_unmarked arguments second.arguments).1]
      | _ => simp only [Ty.unmarked, classify, Ty.isEmpty_unmarkedAll, and_self]
  | .array target _, source => by
      cases source with
      | array element former =>
          simp only [Ty.unmarked, classify, nested_incompatible]
          exact classify_unmarked target element
      | _ => exact ⟨Iff.rfl, Iff.rfl⟩
  | .delegate inputs target _, source => by
      cases source with
      | delegate others result former =>
          simp only [Ty.unmarked, classify, worst_incompatible, nested_incompatible,
            classifyAll_unmarked inputs others, classify_unmarked target result, and_self]
      | _ => exact ⟨Iff.rfl, Iff.rfl⟩
  | .value .., source => by cases source <;> exact ⟨Iff.rfl, Iff.rfl⟩
  | .parameter .., source => by cases source <;> exact ⟨Iff.rfl, Iff.rfl⟩
  | .null _, source => by cases source <;> exact ⟨Iff.rfl, Iff.rfl⟩
  | .dynamic _, _ => ⟨Iff.rfl, Iff.rfl⟩
  | .error .., _ => ⟨Iff.rfl, Iff.rfl⟩

/-- Whether argument lists convert at all does not depend on marks. -/
theorem classifyAll_unmarked : ∀ targets sources : List Ty,
    (classes.classifyAll (Ty.unmarkedAll sources) targets = .incompatible ↔
      classes.classifyAll sources targets = .incompatible) ∧
    (classes.classifyAll sources (Ty.unmarkedAll targets) = .incompatible ↔
      classes.classifyAll sources targets = .incompatible)
  | [], sources => by cases sources <;> exact ⟨Iff.rfl, Iff.rfl⟩
  | target :: targets, sources => by
      cases sources with
      | nil => exact ⟨Iff.rfl, Iff.rfl⟩
      | cons source sources =>
          simp only [Ty.unmarkedAll, classifyAll, worst_incompatible, nested_incompatible,
            classify_unmarked target source, classifyAll_unmarked targets sources, and_self]

end

variable {classes}

/-- Whether a type converts to another one is known from the types without marks. -/
theorem incompatible_congr {source source' target target' : Ty}
    (sameSource : source.unmarked = source'.unmarked)
    (sameTarget : target.unmarked = target'.unmarked) :
    classes.classify source target = .incompatible ↔
      classes.classify source' target' = .incompatible := by
  rw [← (classes.classify_unmarked target source).1,
    ← (classes.classify_unmarked target source.unmarked).2, sameSource, sameTarget,
    (classes.classify_unmarked target' source'.unmarked).2,
    (classes.classify_unmarked target' source').1]

/-- All candidates convert to the one at the index, which is not the null literal. Null literals are
no candidates. -/
def Accepts (classes : ClassTable) (candidates : List Ty) (index : Nat) : Prop :=
  ∃ candidate, candidates[index]? = some candidate ∧ candidate.isNull = false ∧
    ∀ position other, position ≠ index → candidates[position]? = some other →
      other.isNull = false → classes.classify other candidate ≠ .incompatible

/-- The common type is the candidate at the index, the first one that all convert to. -/
structure Picks (classes : ClassTable) (candidates : List Ty) (index : Nat) : Prop where
  accepted : classes.Accepts candidates index
  first : ∀ earlier < index, ¬classes.Accepts candidates earlier
  common : classes.bestCommon? candidates = candidates[index]?

/-- The type is not the null literal, and all candidates convert to it. -/
def isCommon (classes : ClassTable) (candidates : List Ty) (ty : Ty) : Bool :=
  !ty.isNull && candidates.all fun other =>
    other.isNull || classes.classify other ty != .incompatible

/-- The best common type is the first candidate to which all others convert. -/
theorem bestCommon?_eq_find? (classes : ClassTable) (candidates : List Ty) :
    classes.bestCommon? candidates = candidates.find? (classes.isCommon candidates) := by
  rw [bestCommon?, List.find?_filter]
  congr 1
  funext ty
  simp only [isCommon, List.all_filter, Bool.not_not, Bool.decide_and, Bool.decide_eq_true]

/-- A type converts to itself, so that a candidate need not be compared with itself. -/
theorem isCommon_iff {candidates : List Ty} {index : Nat} {candidate : Ty}
    (isCandidate : candidates[index]? = some candidate) :
    classes.isCommon candidates candidate = true ↔ classes.Accepts candidates index := by
  simp only [isCommon, Bool.and_eq_true, Bool.not_eq_true', List.all_eq_true, Bool.or_eq_true,
    bne_iff_ne]
  constructor
  · rintro ⟨typed, converts⟩
    refine ⟨candidate, isCandidate, typed, fun position other _ isOther typedOther => ?_⟩
    refine (converts other (List.mem_of_getElem? isOther)).resolve_left ?_
    rw [typedOther]
    exact Bool.false_ne_true
  · rintro ⟨found, isFound, typed, accepts⟩
    obtain rfl := Option.some.inj (isCandidate.symm.trans isFound)
    refine ⟨typed, fun other member => ?_⟩
    obtain ⟨position, isOther⟩ := List.mem_iff_getElem?.mp member
    by_cases here : position = index
    · subst here
      obtain rfl := Option.some.inj (isCandidate.symm.trans isOther)
      rw [classify_self]
      exact Or.inr Conversion.noConfusion
    · cases null : other.isNull with
      | true => exact Or.inl rfl
      | false => exact Or.inr (accepts position other here isOther null)

/-- The common type is the first accepted candidate, and there is none if no candidate is accepted. -/
theorem picks_or_none (classes : ClassTable) (candidates : List Ty) :
    (∃ index, classes.Picks candidates index) ∨
      classes.bestCommon? candidates = none ∧ ∀ index, ¬classes.Accepts candidates index := by
  have search := classes.bestCommon?_eq_find? candidates
  cases found : candidates.find? (classes.isCommon candidates) with
  | none =>
      refine Or.inr ⟨search.trans found, fun index accepts => ?_⟩
      obtain ⟨candidate, isCandidate, -⟩ := id accepts
      have fails := List.find?_eq_none.mp found candidate (List.mem_of_getElem? isCandidate)
      exact fails ((isCommon_iff isCandidate).mpr accepts)
  | some candidate =>
      obtain ⟨passed, index, inside, rfl, before⟩ := List.find?_eq_some_iff_getElem.mp found
      have isCandidate := List.getElem?_eq_getElem inside
      refine Or.inl ⟨index, (isCommon_iff isCandidate).mp passed, fun earlier below accepts => ?_,
        (search.trans found).trans isCandidate.symm⟩
      have earlierCandidate := List.getElem?_eq_getElem (Nat.lt_trans below inside)
      have fails := before earlier below
      rw [(isCommon_iff earlierCandidate).mpr accepts] at fails
      cases fails

/-- Lists that differ in marks alone have such types at every index. -/
theorem exists_alike {candidates others : List Ty}
    (same : candidates.map Ty.unmarked = others.map Ty.unmarked) {index : Nat} {candidate : Ty}
    (isCandidate : candidates[index]? = some candidate) :
    ∃ other, others[index]? = some other ∧ other.unmarked = candidate.unmarked := by
  have atIndex := congrArg (·[index]?) same
  simp only [List.getElem?_map, isCandidate, Option.map_some] at atIndex
  exact Option.map_eq_some_iff.mp atIndex.symm

/-- The marks of the candidates do not decide which of them are accepted. -/
theorem accepts_congr {candidates others : List Ty}
    (same : candidates.map Ty.unmarked = others.map Ty.unmarked) {index : Nat}
    (accepts : classes.Accepts candidates index) : classes.Accepts others index := by
  obtain ⟨candidate, isCandidate, typed, accepts⟩ := accepts
  obtain ⟨alike, isAlike, alikeCandidate⟩ := exists_alike same isCandidate
  refine ⟨alike, isAlike, ?_, fun position other elsewhere isOther typedOther => ?_⟩
  · rw [← alike.isNull_unmarked, alikeCandidate, candidate.isNull_unmarked, typed]
  · obtain ⟨former, isFormer, alikeOther⟩ := exists_alike same.symm isOther
    refine mt (incompatible_congr alikeOther.symm alikeCandidate).mp
      (accepts position former elsewhere isFormer ?_)
    rw [← former.isNull_unmarked, alikeOther, other.isNull_unmarked, typedOther]

/-- The index that is picked does not depend on marks. -/
theorem Picks.congr {candidates others : List Ty}
    (same : candidates.map Ty.unmarked = others.map Ty.unmarked) {index : Nat}
    (picks : classes.Picks candidates index) : classes.Picks others index := by
  rcases classes.picks_or_none others with ⟨found, picksFound⟩ | ⟨-, rejects⟩
  · obtain below | rfl | above := Nat.lt_trichotomy index found
    · exact absurd (accepts_congr same picks.accepted) (picksFound.first index below)
    · exact picksFound
    · exact absurd (accepts_congr same.symm picksFound.accepted) (picks.first found above)
  · exact absurd (accepts_congr same picks.accepted) (rejects index)

end ClassTable

/-- Marks do not decide whether a type converts to another one, and those at the top do not matter to
a conversion at all. So the common type of candidates is at the same place for all candidates of the
same shapes. It is the first candidate that all others convert to, apart from null literals. -/
theorem convertibility_ignores_marks (classes : ClassTable) :
    (∀ source source' target target' : Ty, source.unmarked = source'.unmarked →
      target.unmarked = target'.unmarked →
      (classes.classify source target = .incompatible ↔
        classes.classify source' target' = .incompatible)) ∧
    (∀ (source target : Ty) (first second : Mark),
      classes.classify (source.marked first) (target.marked second) =
        classes.classify source target) ∧
    ∀ candidates others : List Ty, candidates.map Ty.unmarked = others.map Ty.unmarked →
      (∃ index, classes.Picks candidates index ∧ classes.Picks others index) ∨
      classes.bestCommon? candidates = none ∧ classes.bestCommon? others = none ∧
        ∀ index, ¬classes.Accepts candidates index := by
  refine ⟨fun _ _ _ _ => ClassTable.incompatible_congr, fun source target first second => ?_,
    fun candidates others same => ?_⟩
  · rw [ClassTable.classify_target_marked, ClassTable.classify_source_marked]
  · rcases classes.picks_or_none candidates with ⟨index, picks⟩ | ⟨nothing, rejects⟩
    · exact Or.inl ⟨index, picks, picks.congr same⟩
    · refine Or.inr ⟨nothing, ?_, rejects⟩
      rcases classes.picks_or_none others with ⟨index, picks⟩ | ⟨nothingElse, -⟩
      · exact absurd (picks.congr same.symm).accepted (rejects index)
      · exact nothingElse

section Example

/-- A class with a type argument, and a class that extends it for objects that may be null. -/
def namedBoxes : ClassTable :=
  .ofList [⟨"Box", ["T"], none⟩, ⟨"NamedBox", [], some (.named "Box" [.named "object" [] .nullable] .plain)⟩]

def boxOf (inner mark : Mark) : Ty := .named "Box" [.named "object" [] inner] mark

/-- A null literal, a box and a named box, which converts to the box. -/
def mixedCandidates (inner mark : Mark) : List Ty :=
  [.null mark, boxOf inner mark, .named "NamedBox" [] mark]

/-- A named box converts to boxes of either kind, and the box is the common type whatever its marks
are. -/
theorem mixedCandidates_common :
    (boxOf .nullable .plain).unmarked = (boxOf .plain .nullable).unmarked ∧
      namedBoxes.classify (.named "NamedBox" [] .plain) (boxOf .plain .nullable) ≠ .incompatible ∧
      (mixedCandidates .nullable .plain).map Ty.unmarked =
        (mixedCandidates .plain .nullable).map Ty.unmarked ∧
      ∃ index, namedBoxes.Picks (mixedCandidates .nullable .plain) index ∧
        namedBoxes.Picks (mixedCandidates .plain .nullable) index := by
  obtain ⟨converts, -, common⟩ := convertibility_ignores_marks namedBoxes
  have smooth : namedBoxes.classify (.named "NamedBox" [] .plain) (boxOf .nullable .plain) = .ok := by
    decide +kernel
  have found : (namedBoxes.bestCommon? (mixedCandidates .nullable .plain)).isSome = true := by
    decide +kernel
  have commonHere :=
    common (mixedCandidates .nullable .plain) (mixedCandidates .plain .nullable) rfl
  have convertsHere := converts (.named "NamedBox" [] .plain) (.named "NamedBox" [] .plain)
    (boxOf .nullable .plain) (boxOf .plain .nullable) rfl rfl
  refine ⟨rfl, ?_, rfl, commonHere.resolve_right fun missing => ?_⟩
  · rw [Ne, ← convertsHere, smooth]
    exact Conversion.noConfusion
  · rw [missing.1] at found
    cases found

end Example

end NullFlow
