import NullFlow.Proofs.Runtime.Soundness
/-!
The rules for connectives, comparisons and tests are sound.
-/

namespace NullFlow

variable {layout : Layout} {method : String} {operand left right : Part}
  {behaviour first second : Behaviour}

/-- A negation takes the other branch. -/
theorem Decides.negate {before after : Session} {branches : Branches} {answer : Bool × Memory}
    (decides : Decides layout before after branches answer) :
    Decides layout before after ⟨branches.whenFalse, branches.whenTrue⟩ (!answer.1, answer.2) := by
  obtain ⟨holds, memory⟩ := answer
  refine ⟨decides.slots, decides.fits, fun outcome => ?_, ?_⟩
  · cases outcome
    · exact decides.within true
    · exact decides.within false
  · cases holds <;> exact decides.covers

/-- The rule of a negation decides what the negation does. -/
theorem notRule_sound (sound : operand.get.Sound layout method behaviour) :
    SoundBranches layout method (notRule operand) behaviour.negation := by
  intro session store memory fits covers
  exact (sound.branches fits covers).bind (fun _ => .pure _) fun decides => .pure decides.negate

section Connectives

/-- The outcomes of a connective that is decided when its left side comes out as `decisive`. -/
def decidedBy (decisive : Bool) (joined other : Store) : Branches :=
  if decisive then ⟨joined, other⟩ else ⟨other, joined⟩

theorem taken_decidedBy (decisive : Bool) (joined other : Store) (holds : Bool) :
    (decidedBy decisive joined other).taken holds = if holds = decisive then joined else other := by
  cases decisive <;> cases holds <;> rfl

/-- Both connectives at once: one is decided by a left side that fails, the other one by a left
side that holds. -/
def connect (decisive : Bool) (left right : Part) (store : Store) : Analysis Branches := do
  let first ← left.branches store
  let second ← right.branches (first.taken !decisive)
  let table ← Analysis.slots
  return decidedBy decisive ((first.taken decisive).join table (second.taken decisive))
    (second.taken !decisive)

/-- The right side runs unless the left one decides. -/
def unlessDecided (decisive : Bool) (first second : Evaluation) : Evaluation := fun memory => do
  let answer ← first memory
  if answer.1 = decisive then return answer else second answer.2

/-- If the left side decides, the right one is analyzed without being evaluated. -/
theorem connect_sound (decisive : Bool) (ofLeft : left.get.Sound layout method first)
    (ofRight : right.get.Sound layout method second) :
    SoundBranches layout method (connect decisive left right)
      (unlessDecided decisive first.decide second.decide) := by
  intro session store memory fits covers
  refine (ofLeft.branches fits covers).bind
    (fun _ => .bind (ofRight.orderly.records.branches _) fun _ => .bind .slots fun _ => .pure _)
    fun {after branches answer} decides => ?_
  have decided := decides.within decisive
  have taken := decides.covers
  by_cases isDecided : answer.1 = decisive
  · rw [if_pos isDecided]
    rw [isDecided] at taken
    have skipped := ofRight.orderly.branches decides.fits (decides.within !decisive)
    have within := (skipped decisive).within
    have decided := decided.extend (skipped decisive).slots
    refine .first (.first (.pure ⟨decides.slots.trans (skipped decisive).slots,
      (skipped decisive).fits, fun holds => ?_, ?_⟩))
    · rw [taken_decidedBy]
      split
      · exact decided.join within _
      · exact (skipped !decisive).within
    · rw [taken_decidedBy, if_pos isDecided]
      exact (taken.extend decides.fits (skipped decisive).fits (skipped decisive).slots).join_left
        (skipped decisive).fits within
  · rw [if_neg isDecided]
    rw [Bool.eq_not_of_ne isDecided] at taken
    refine (ofRight.branches decides.fits taken).finish (fun _ => .bind .slots fun _ => .pure _)
      fun {last choices outcome} later => ?_
    have decided := decided.extend later.slots
    refine .first (.pure ⟨decides.slots.trans later.slots, later.fits, fun holds => ?_, ?_⟩)
    · rw [taken_decidedBy]
      split
      · exact decided.join (later.within decisive) _
      · exact later.within _
    · have taken := later.covers
      rw [taken_decidedBy]
      split
      · rename_i isDecisive
        rw [isDecisive] at taken
        exact taken.join_right later.fits decided
      · rename_i isOther
        rw [Bool.eq_not_of_ne isOther] at taken
        exact taken

/-- The rule of a conjunction decides what the conjunction does, the second operand unevaluated
where the first fails. -/
theorem andRule_sound (ofLeft : left.get.Sound layout method first)
    (ofRight : right.get.Sound layout method second) :
    SoundBranches layout method (andRule left right) (first.conjunction second) := by
  have same : first.conjunction second = unlessDecided false first.decide second.decide := by
    funext memory
    unfold Behaviour.conjunction unlessDecided
    refine congrArg _ (funext fun answer => ?_)
    cases answer.1 <;> rfl
  rw [same]
  exact connect_sound false ofLeft ofRight

/-- The rule of a disjunction decides what the disjunction does, the second operand unevaluated
where the first holds. -/
theorem orRule_sound (ofLeft : left.get.Sound layout method first)
    (ofRight : right.get.Sound layout method second) :
    SoundBranches layout method (orRule left right) (first.disjunction second) := by
  have same : first.disjunction second = unlessDecided true first.decide second.decide := by
    funext memory
    unfold Behaviour.disjunction unlessDecided
    refine congrArg _ (funext fun answer => ?_)
    cases answer.1 <;> rfl
  rw [same]
  exact connect_sound true ofLeft ofRight

end Connectives

section Comparisons

variable {before after : Session} {store : Store} {memory : Memory} {isNull : Bool}

/-- Each outcome has a store of its own, and the store of the outcome covers the memory. -/
theorem Decides.of_covers {whenTrue whenFalse : Store} {answer : Bool × Memory}
    (slots : before.slots.Extends after.slots) (fits : layout.Fits after.slots)
    (withinTrue : whenTrue.Within after.slots) (withinFalse : whenFalse.Within after.slots)
    (covers : ((Branches.mk whenTrue whenFalse).taken answer.1).Covers layout after.slots answer.2) :
    Decides layout before after ⟨whenTrue, whenFalse⟩ answer := by
  refine ⟨slots, fits, fun holds => ?_, covers⟩
  cases holds
  · exact withinFalse
  · exact withinTrue

/-- A test for null tells whether the value is null. -/
theorem Decides.learn_null (slots : before.slots.Extends after.slots)
    (fits : layout.Fits after.slots) (covers : store.Covers layout after.slots memory)
    {slot? : Option SlotId} (place : after.slots.Holds slot? isNull memory) :
    Decides layout before after
      ⟨store.assign slot? .maybeNull, store.assign slot? .notNull⟩ (isNull, memory) := by
  refine .of_covers slots fits (place.within_assign covers.within _)
    (place.within_assign covers.within _) ?_
  cases isNull with
  | true => exact covers.learn fits place fun _ => rfl
  | false => exact covers.learn fits place fun null => by cases null

/-- A type pattern fits no null. -/
theorem testRule_sound (sound : operand.get.Sound layout method behaviour) (pattern : Pattern) :
    SoundBranches layout method (testRule operand pattern) (behaviour.test pattern) := by
  intro session store memory fits covers
  refine (sound.value fits covers).bind (fun _ => .pure _) fun {after result answer} yields => ?_
  have place := yields.value.place
  cases pattern with
  | null => exact .pure (.learn_null yields.slots yields.fits yields.covers place)
  | type ty =>
      dsimp only
      cases isNull : answer.1 with
      | true =>
          exact .pure (.of_covers yields.slots yields.fits
            (place.within_assign yields.covers.within _) yields.covers.within yields.covers)
      | false =>
          refine .pure (.of_covers yields.slots yields.fits
            (place.within_assign yields.covers.within _) yields.covers.within ?_)
          cases holds : answer.2.toss.1 with
          | true =>
              exact (yields.covers.learn yields.fits place fun null => by
                rw [isNull] at null; cases null).frame rfl
          | false => exact yields.covers.frame rfl

/-- Two values that turn out equal are null alike. -/
theorem compare_equal {one two : Bool} (equal : (Behaviour.compare one two memory).1 = true) :
    one = two := by
  cases one <;> cases two
  · rfl
  · cases equal
  · cases equal
  · rfl

/-- A value that equals one that is not null is not null either. -/
theorem equal_covers {one two : Bool} (covers : store.Covers layout after.slots memory)
    (fits : layout.Fits after.slots) {firstValue secondValue : Value}
    (ofFirst : firstValue.Covers after.slots one memory)
    (ofSecond : secondValue.Covers after.slots two memory) (equal : one = two) :
    let known := if secondValue.state.isMaybeNull then store else store.assign firstValue.slot? .notNull
    (if firstValue.state.isMaybeNull then known
      else known.assign secondValue.slot? .notNull).Covers layout after.slots memory := by
  intro known
  have learned : ∀ {isNull : Bool} {other : Value}, other.Covers after.slots isNull memory →
      other.state.isMaybeNull ≠ true → isNull = true → FlowState.notNull = .maybeNull := by
    intro isNull other covers notNull null
    rw [covers.state null] at notNull
    exact absurd rfl notNull
  have coversKnown : known.Covers layout after.slots memory := by
    by_cases null : secondValue.state.isMaybeNull = true
    · rw [show known = store from if_pos null]
      exact covers
    · rw [show known = _ from if_neg null]
      exact covers.learn fits ofFirst.place (equal ▸ learned ofSecond null)
  split
  · exact coversKnown
  · rename_i null
    exact coversKnown.learn fits ofSecond.place (equal ▸ learned ofFirst null)

/-- The branch that a comparison takes narrows slots only to what the memory shows. -/
theorem compareValues_decides {one two : Bool} (slots : before.slots.Extends after.slots)
    (fits : layout.Fits after.slots) (covers : store.Covers layout after.slots memory)
    {firstValue secondValue : Value} (ofFirst : firstValue.Covers after.slots one memory)
    (ofSecond : secondValue.Covers after.slots two memory)
    (leftNull : left.isNull = true → one = true) (rightNull : right.isNull = true → two = true) :
    Decides layout before after (compareValues left right firstValue secondValue store)
      (Behaviour.compare one two memory) := by
  have known := equal_covers covers fits ofFirst ofSecond
  have frames := Evaluation.Frames.compare one two memory
  unfold compareValues
  cases isLeftNull : left.isNull with
  | true =>
      cases isRightNull : right.isNull with
      | true => exact .same slots fits (covers.frame frames)
      | false =>
          obtain rfl := leftNull isLeftNull
          exact .learn_null slots fits covers ofSecond.place
  | false =>
      cases isRightNull : right.isNull with
      | true =>
          obtain rfl := rightNull isRightNull
          have answer : Behaviour.compare one true memory = (one, memory) := by cases one <;> rfl
          rw [answer]
          exact .learn_null slots fits covers ofFirst.place
      | false =>
          refine .of_covers slots fits ?_ covers.within ?_
          · split
            · split
              · exact covers.within
              · exact ofFirst.place.within_assign covers.within _
            · refine ofSecond.place.within_assign ?_ _
              split
              · exact covers.within
              · exact ofFirst.place.within_assign covers.within _
          · cases holds : (Behaviour.compare one two memory).1 with
            | true => exact (known (compare_equal holds)).frame frames
            | false => exact covers.frame frames

/-- The right operand assigns nothing, so the left one still denotes what it was. -/
theorem equalityRule_sound (negated : Bool) (ofLeft : left.get.Sound layout method first)
    (ofRight : right.get.Sound layout method second) (frames : second.Frames) :
    SoundBranches layout method (equalityRule negated left right)
      (first.equality second negated) := by
  intro session store memory fits covers
  have ofNull : ∀ {part : Part} {behaviour : Behaviour}, part.get.Sound layout method behaviour →
      ∀ memory, Concludes (behaviour.value memory) (fun _ => True)
        fun answer => part.isNull = true → answer.1 = true := by
    intro part behaviour sound memory
    cases isNull : part.isNull with
    | true => exact (sound.null isNull memory).weaken (fun _ => id) fun _ same _ => same
    | false => exact Concludes.any _ fun _ never => by cases never
  refine ((ofLeft.value fits covers).knowing (ofNull ofLeft memory)).bind
    (fun _ => .bind (ofRight.orderly.records.value _) fun _ => .pure _)
    fun {after result answer} ⟨yields, leftNull⟩ => ?_
  refine (((ofRight.value yields.fits yields.covers).knowing (ofNull ofRight answer.2)).knowing
    (frames.value answer.2)).bind (fun _ => .pure _)
    fun {last other outcome} ⟨⟨later, rightNull⟩, same⟩ => ?_
  have decides := compareValues_decides (yields.slots.trans later.slots) later.fits later.covers
    ((yields.value.extend later.slots).frame same) later.value leftNull rightNull
  cases negated with
  | true =>
      refine .pure ?_
      rw [Bool.bne_true]
      exact decides.negate
  | false =>
      refine .pure ?_
      rw [Bool.bne_false]
      exact decides

end Comparisons

end NullFlow
