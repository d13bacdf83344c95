import NullFlow.Proofs.Analysis.NestedMarks
import NullFlow.Proofs.Analysis.Spilling
import NullFlow.Proofs.Body.Solutions
import NullFlow.Proofs.Types.Conversions
/-!
Values in places that are declared with a base class of theirs. The write records the marks of the
value below the place by the type arguments of its own class, and a read looks for them by those of
the base class. Marks are read back as they were written where the two classes agree in this.
-/

namespace NullFlow

/-- What a value of the written type leaves at the end of the steps below a place of the declared
type is the mark of the position. -/
def Ty.Leaves (written declared position : Ty) (steps : List TyStep) : Prop :=
  match written.recorded? steps with
  | some state => state = position.declaredState
  | none => ∀ place, declared.inside? steps = some place →
      (place.mark = .nullable ↔ position.mark = .nullable)

/-- The mark of a type that tells states is nullable exactly if its values may be null. An oblivious
type says nothing. -/
theorem Ty.declaredState_eq_maybeNull {ty : Ty} (tells : ty.tellsStates = true)
    (promises : ty.mark ≠ .oblivious) : ty.declaredState = .maybeNull ↔ ty.mark = .nullable := by
  have ofMark : ty.declaredState = .ofMark ty.mark := by
    cases ty <;> first | rfl | cases tells
  rw [ofMark]
  cases isMark : ty.mark <;> simp_all [FlowState.ofMark]

/-- A value that passes its type arguments on to the base class as they are leaves all marks. -/
theorem Ty.leaves_of_arguments {classes : ClassTable} {owner : String}
    {written declared seen position : Ty} {steps : List TyStep}
    (view : classes.instance? written owner = some seen) (same : written.arguments = seen.arguments)
    (nested : steps ≠ []) (found : seen.inside? steps = some position)
    (promises : position.mark ≠ .oblivious) : written.Leaves declared position steps := by
  obtain ⟨name, arguments, mark, rfl⟩ := ClassTable.named_of_instance? classes view
  obtain ⟨others, other, rfl⟩ := classes.exists_named_of_ancestor? view
  obtain rfl : arguments = others := same
  have foundWritten : (Ty.named name arguments mark).inside? steps = some position := by
    cases steps with
    | nil => exact absurd rfl nested
    | cons step rest => cases step <;> exact found
  simp only [Leaves, recorded?, foundWritten, Option.bind_some, if_neg promises]

section Read

variable {table : SlotTable} {slot : SlotId} {store : Store}

/-- What is shown of a position below a place that was written is what the type of the value records
there, or else the declared mark. -/
theorem Store.shownMark_write (rooted : table.Rooted) (inside : slot < table.size)
    (live : store.Live) (within : store.Within table) (state : FlowState) (source? : Option SlotId)
    (written : Ty) {steps : List TyStep} (nested : steps ≠ []) {place : Ty}
    (tells : place.tellsStates = true) :
    let after := store.write (some slot) ⟨state, some written, source?, []⟩ table
    place.shownMark after.1 (after.2.follow steps slot) = .nullable ↔
      match written.recorded? steps with
      | some known => known = .maybeNull
      | none => place.mark = .nullable := by
  intro after
  obtain ⟨entry, reached⟩ := Store.explicit_write rooted inside live within state source? written nested
  cases found : after.2.follow steps slot with
  | none =>
      cases recorded : written.recorded? steps with
      | none => rfl
      | some known => simp [recorded, after, found] at reached
  | some child =>
      rw [Ty.shownMark, Ty.observed, entry found]
      cases recorded : written.recorded? steps with
      | none => rfl
      | some known =>
          simp only [Ty.mark_withState, tells, if_true]
          cases known <;> simp [FlowState.mark]

/-- The type that is read of a place after a write has the shape of the declared type. If the type of
the value, seen as an instance of a base class, has this shape as well, then the two agree in whether
a position is marked nullable exactly if the value leaves the mark of the position. That is so if the
type passes its arguments on to the base class as they are. -/
theorem written_shape_read_iff (classes : ClassTable) (rooted : table.Rooted)
    (inside : slot < table.size) (live : store.Live) (within : store.Within table) {owner : String}
    {declared written seen : Ty} (view : classes.instance? written owner = some seen)
    (same : seen.unmarked = declared.unmarked) (state : FlowState) (source? : Option SlotId) :
    let after := store.write (some slot) ⟨state, some written, source?, []⟩ table
    ∃ read, (Value.ofSlot after.2 after.1 declared (some slot)).ty? = some read ∧
      read.unmarked = declared.unmarked ∧
      ∀ {steps position}, steps ≠ [] → seen.inside? steps = some position →
        position.tellsStates = true → position.mark ≠ .oblivious →
        ∃ shown, read.inside? steps = some shown ∧
          ((shown.mark = .nullable ↔ position.mark = .nullable) ↔
            written.Leaves declared position steps) ∧
          (written.arguments = seen.arguments → written.Leaves declared position steps) := by
  intro after
  let read := (declared.withState (after.1.lookup after.2 (some slot))).refine after.2 after.1 slot
  have sameRead : read.unmarked = declared.unmarked :=
    (Ty.unmarked_refine ..).trans (declared.unmarked_withState _)
  refine ⟨read, rfl, sameRead, fun {steps position} nested found tells promises => ?_⟩
  obtain ⟨shown, isShown, -⟩ := Ty.exists_inside?_of_unmarked (same.trans sameRead.symm) found
  obtain ⟨place, isPlace, samePlace⟩ := Ty.exists_inside?_of_unmarked same found
  have tellsPlace : place.tellsStates = true := by
    rw [← place.tellsStates_unmarked, samePlace, position.tellsStates_unmarked, tells]
  have nestedPath : steps.map TyStep.index ≠ [] := mt List.map_eq_nil_iff.mp nested
  have readPlace := Value.nullableAt_ofSlot after.2 declared slot after.1 nestedPath
  rw [Ty.at?_of_inside? isPlace, after.2.inner?_of_inside? slot isPlace, Option.map_some,
    Option.some_inj] at readPlace
  have left := Store.shownMark_write rooted inside live within state source? written nested tellsPlace
  have readMark : (Value.ofSlot after.2 after.1 declared (some slot)).NullableAt
      (steps.map TyStep.index) ↔ shown.mark = .nullable := by
    change (read.at? (steps.map TyStep.index)).map Ty.mark = some .nullable ↔ _
    rw [Ty.at?_of_inside? isShown, Option.map_some, Option.some_inj]
  refine ⟨shown, isShown, ?_, fun passed => Ty.leaves_of_arguments view passed nested found promises⟩
  rw [← readMark, readPlace.trans left, Ty.Leaves]
  cases written.recorded? steps with
  | none => simp [isPlace]
  | some known =>
      rw [← Ty.declaredState_eq_maybeNull tells promises]
      cases known <;> cases position.declaredState <;> simp

end Read

namespace Body

section Example

/-- A table with the slot of one local. -/
def localTable : SlotTable := ⟨#[⟨.localVar 0, .notNull⟩]⟩

/-- The type that is read of the local after a value of another type was written to it. -/
def readAfter (written declared : Ty) : Option Ty :=
  let after := Store.entry.write (some 0) ⟨.notNull, some written, none, []⟩ localTable
  (Value.ofSlot after.2 after.1 declared (some 0)).ty?

/-- A value of type `C<object?>` leaves its mark in a local of type `C<object>`. -/
theorem boxed_read_back : ∃ read shown, readAfter (boxed .nullable) (boxed .plain) = some read ∧
    read.inside? [.argument 0] = some shown ∧ shown.mark = .nullable := by
  have rooted : localTable.Rooted := by
    constructor
    intro slot parent isParent
    obtain ⟨key, isKey, ofKey⟩ := Option.bind_eq_some_iff.mp isParent
    have inside : slot < 1 := SlotTable.lt_size_of_key? isKey
    obtain rfl : slot = 0 := by omega
    obtain rfl := Option.some.inj isKey
    cases ofKey
  have inside : 0 < localTable.size := by decide
  have live : Store.entry.Live := rfl
  have same : (boxed .nullable).unmarked = (boxed .plain).unmarked := rfl
  obtain ⟨read, isRead, -, positions⟩ := written_shape_read_iff boxClasses rooted inside live
    (Store.within_entry _) (boxClasses.instance?_self "C" [.named "object" [] .nullable] .plain)
    same .notNull none
  have nested : [TyStep.argument 0] ≠ [] := List.cons_ne_nil _ _
  have found : (boxed .nullable).inside? [.argument 0] = some (.named "object" [] .nullable) := rfl
  obtain ⟨shown, isShown, agree, leaves⟩ := positions nested found rfl (by decide)
  exact ⟨read, shown, isRead, isShown, (agree.mpr (leaves rfl)).mpr rfl⟩

/-- A class with two type arguments, and a class that extends it with the arguments swapped. -/
def pairClasses : ClassTable := .ofList [⟨"Pair", ["S", "T"], none⟩,
  ⟨"Swap", ["S", "T"], some (.named "Pair" [.parameter "T" .plain, .parameter "S" .plain] .plain)⟩]

def pairOf (name : String) (first second : Mark) : Ty :=
  .named name [.named "object" [] first, .named "object" [] second] .plain

/-- A variable of type `Swap<object?, object>` is assigned to one of type `Pair<object, object?>`. A
method is called of what the second component of the latter yields. -/
def swappedPair : Body where
  name := "M"
  span? := none
  thisType? := none
  parameters := [0, 1]
  returnType := .void
  locals := #[⟨"x", pairOf "Pair" .plain .nullable, false⟩,
    ⟨"y", pairOf "Swap" .nullable .plain, false⟩]
  exprs := #[⟨.read 0, some (pairOf "Pair" .plain .nullable), .none⟩,
    ⟨.read 1, some (pairOf "Swap" .nullable .plain), .none⟩,
    ⟨.assign 0 1, some (pairOf "Pair" .plain .nullable), .none⟩,
    ⟨.read 0, some (pairOf "Pair" .plain .nullable), .none⟩,
    ⟨.call (some 3) ⟨"Second", "Pair.Second()", some "Pair", [], [], .parameter "T" .plain⟩ [],
      some (.named "object" [] .nullable), .none⟩,
    ⟨.call (some 4) ⟨"Foo", "object.Foo()", some "object", [], [], .void⟩ [], some .void, .none⟩]
  stmts := #[⟨.evaluate 2, .none⟩, ⟨.evaluate 5, .none⟩, ⟨.block [0, 1], .none⟩]
  root := 2

/-- Seen as a pair, the value has the declared type. But its marks are read back in the order of its
own arguments, and the second component, which may be null, is dereferenced without a report. -/
theorem swappedPair_read_swapped :
    (pairClasses.instance? (pairOf "Swap" .nullable .plain) "Pair" =
        some (pairOf "Pair" .plain .nullable) ∧
      readAfter (pairOf "Swap" .nullable .plain) (pairOf "Pair" .plain .nullable) =
        some (.named "Pair" [.named "object" [] .nullable, .named "object" [] .notNullable]
          .notNullable)) ∧
    swappedPair.validate = .ok () ∧ ∃ method, swappedPair.method? = some method ∧
      method.analyze pairClasses ⟨40, false⟩ false = some ⟨[], none, 2, true⟩ := by
  have checked : (swappedPair.method?.any fun method =>
      decide (method.analyze pairClasses ⟨40, false⟩ false = some ⟨[], none, 2, true⟩)) = true := by
    decide +kernel
  obtain ⟨method, found, analyzed⟩ := (Option.any_eq_true _ _).mp checked
  refine ⟨⟨by with_unfolding_all rfl, by with_unfolding_all rfl⟩, ?_⟩
  exact ⟨by decide +kernel, method, found, of_decide_eq_true analyzed⟩

end Example

end Body

end NullFlow
