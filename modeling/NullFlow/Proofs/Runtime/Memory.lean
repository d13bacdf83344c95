import NullFlow.Code.Expr
/-!
What code does when it runs. Of every value only one thing matters, whether it is null, so a memory
says which locals hold null. What the text of the code leaves open, such as the values that methods
return, is open here too: a memory also knows how the open choices to come turn out.
-/

namespace NullFlow

/-- The locals of a method at one point of an execution. -/
structure Memory where
  /-- The local holds null. -/
  isNull : LocalId → Bool
  /-- How the open choices of the execution turn out, in the order in which they come up. -/
  choices : Nat → Nat
  /-- The receiver of the call that stopped the execution, because it was null. -/
  nullReceiver? : Option Span

/-- The evaluation of an expression. It tells whether the value is null or, for a condition, whether
the condition holds. It may stop the whole execution, and then yields the last memory as an error. -/
abbrev Evaluation := Memory → Except Memory (Bool × Memory)

namespace Memory

variable (memory : Memory)

/-- Stores a value in a local. -/
def write (id : LocalId) (isNull : Bool) : Memory :=
  { memory with isNull := fun other => if other = id then isNull else memory.isNull other }

/-- Makes an open choice. -/
def choose : Nat × Memory :=
  (memory.choices 0, { memory with choices := fun index => memory.choices (index + 1) })

/-- Makes an open choice between two outcomes. -/
def toss : Bool × Memory := (memory.choose.1 == 0, memory.choose.2)

/-- A call stops the execution because its receiver is null. -/
def stopAt (receiver : Span) : Memory := { memory with nullReceiver? := some receiver }

/-- Something else stops the execution. -/
def stop : Memory := { memory with nullReceiver? := none }

/-- A value of which only the declared type is known. -/
def declared (ty : Ty) : Bool × Memory :=
  match ty.declaredState with
  | .notNull => (false, memory)
  | .maybeNull => memory.toss

end Memory

section Conclusions

variable {Result Other : Type} {stopped after : Memory → Prop} {kind : Result → Prop}
  {other : Other → Prop}

/-- An execution comes to a result of the kind, or it stops with such a memory. -/
def Concludes (outcome : Except Memory Result) (stopped : Memory → Prop) (kind : Result → Prop) :
    Prop :=
  match outcome with
  | .ok result => kind result
  | .error last => stopped last

namespace Concludes

theorem pure {result : Result} (holds : kind result) :
    Concludes (Pure.pure result) stopped kind := holds

theorem throw {last : Memory} (holds : stopped last) :
    Concludes (MonadExcept.throw last) stopped kind := holds

/-- A computation followed by another stops where either stops. -/
theorem bind {first : Except Memory Result} {next : Result → Except Memory Other}
    (early : Concludes first stopped kind) (onward : ∀ last, stopped last → after last)
    (late : ∀ result, kind result → Concludes (next result) after other) :
    Concludes (first >>= next) after other := by
  cases first with
  | error last => exact onward last early
  | ok result => exact late result early

/-- What is true of all results. -/
theorem any (outcome : Except Memory Result) (holds : ∀ result, kind result) :
    Concludes outcome (fun _ => True) kind := by
  cases outcome with
  | error last => trivial
  | ok result => exact holds result

/-- What is concluded of a computation may be weakened. -/
theorem weaken {outcome : Except Memory Result} {weaker : Result → Prop}
    (concludes : Concludes outcome stopped kind) (onward : ∀ last, stopped last → after last)
    (holds : ∀ result, kind result → weaker result) : Concludes outcome after weaker := by
  cases outcome with
  | error last => exact onward last concludes
  | ok result => exact holds result concludes

theorem map {outcome : Except Memory Result} {change : Result → Other}
    (concludes : Concludes outcome stopped kind) (holds : ∀ result, kind result → other (change result)) :
    Concludes (change <$> outcome) stopped other := by
  cases outcome with
  | error last => exact concludes
  | ok result => exact holds result concludes

end Concludes

end Conclusions

/-- A way out of a switch fits a value. The way without a pattern fits what no other one does. A type
pattern fits some values that are not null, and which ones is open. -/
def wayFits (isNull hasNullArm : Bool) : Option Pattern → Bool
  | some .null => isNull
  | some (.type _) => !isNull
  | none => !(isNull && hasNullArm)

/-- The numbers of the ways that fit a value. -/
def fittingWays (isNull : Bool) (ways : List (Option Pattern)) : List Nat :=
  let hasNullArm := ways.any fun way => way.any Pattern.isNull
  (List.range ways.length).filter fun index => ways[index]?.any (wayFits isNull hasNullArm)

/-- Picks one of the ways that fit a value. -/
def Memory.pickWay (memory : Memory) (isNull : Bool) (ways : List (Option Pattern)) :
    Except Memory (Nat × Memory) :=
  let fitting := fittingWays isNull ways
  match fitting[memory.choose.1 % fitting.length]? with
  | some way => return (way, memory.choose.2)
  | none => throw memory.stop

/-- The way that is picked is one of the given ways, and it fits the value. -/
theorem Memory.pickWay_fits (memory : Memory) (isNull : Bool) (ways : List (Option Pattern)) :
    Concludes (memory.pickWay isNull ways) (fun last => last.nullReceiver? = none) fun picked =>
      picked.2.isNull = memory.isNull ∧ ∃ pattern?, ways[picked.1]? = some pattern? ∧
        wayFits isNull (ways.any fun way => way.any Pattern.isNull) pattern? = true := by
  rw [pickWay]
  split
  · rename_i way found
    obtain ⟨_, fits⟩ := List.mem_filter.mp (List.mem_of_getElem? found)
    exact ⟨rfl, (Option.any_eq_true _ _).mp fits⟩
  · exact .throw rfl

/-- If there is a way without a pattern, then a value always finds a way. -/
theorem Memory.pickWay_picks (memory : Memory) (isNull : Bool) {ways : List (Option Pattern)}
    (otherwise : none ∈ ways) : ∃ picked, memory.pickWay isNull ways = .ok picked := by
  have fits : ∃ way, way ∈ fittingWays isNull ways := by
    have ofFitting : ∀ pattern? ∈ ways,
        wayFits isNull (ways.any fun way => way.any Pattern.isNull) pattern? = true →
        ∃ way, way ∈ fittingWays isNull ways := by
      intro pattern? member fitting
      obtain ⟨index, inside, atIndex⟩ := List.mem_iff_getElem.mp member
      refine ⟨index, List.mem_filter.mpr ⟨List.mem_range.mpr inside, ?_⟩⟩
      rw [List.getElem?_eq_getElem inside, atIndex]
      exact fitting
    cases null : isNull && ways.any fun way => way.any Pattern.isNull with
    | false => exact ofFitting none otherwise (by rw [wayFits, null]; rfl)
    | true =>
        obtain ⟨isNull, hasNullArm⟩ := Bool.and_eq_true_iff.mp null
        obtain ⟨pattern?, member, isNullArm⟩ := List.any_eq_true.mp hasNullArm
        obtain ⟨pattern, rfl, isNullPattern⟩ := (Option.any_eq_true _ _).mp isNullArm
        cases pattern with
        | null => exact ofFitting _ member isNull
        | type ty => cases isNullPattern
  obtain ⟨way, member⟩ := fits
  have positive : 0 < (fittingWays isNull ways).length := List.length_pos_of_mem member
  rw [pickWay]
  rw [List.getElem?_eq_getElem (Nat.mod_lt _ positive)]
  exact ⟨_, rfl⟩

end NullFlow
