import NullFlow.Proofs.Runtime.Soundness
/-!
The rules for locals, constants, casts and assignments are sound.
-/

namespace NullFlow

variable {context : Context} {layout : Layout} {method : String} {ty? : Option Ty}
  {source : Variable}

/-- The slot of a local is there or is made, and then the store covers the same memories. -/
theorem intern_covers (covered : layout.coversVariable source = true) {table : SlotTable}
    {store : Store} {memory : Memory} (fits : layout.Fits table)
    (covers : store.Covers layout table memory) :
    let interned := SlotTable.intern (.localVar source.id) source.ty.declaredState table
    table.Extends interned.2 ∧ layout.Fits interned.2 ∧
      interned.2.key? interned.1 = some (.localVar source.id) ∧
      store.Covers layout interned.2 memory := by
  obtain ⟨extended, fitsAfter, found⟩ := SlotTable.intern_grows fits
    (Layout.state_of_variable covered) (by simp [SlotKey.parent?])
  exact ⟨extended, fitsAfter, found, covers.extend fits fitsAfter extended⟩

/-- A variable that may be null at run time may be null in the store. -/
theorem readRule_sound (covered : layout.coversVariable source = true) :
    SoundValue layout method (readRule source)
      fun memory => return (memory.isNull source.id, memory) := by
  intro session store memory fits covers
  obtain ⟨extended, fitsAfter, found, coversAfter⟩ := intern_covers covered fits covers
  refine .first (.first (.pure ⟨extended, fitsAfter, coversAfter, fun null => ?_, ?_, rfl⟩))
  · rw [← coversAfter.null source.id null]
    exact (Layout.shows_slot fitsAfter found store).symm
  · intro slot same
    obtain rfl : _ = slot := Option.some.inj same
    exact ⟨source.id, found, rfl⟩

/-- Of the literals only null is null, in the analysis as at run time. -/
theorem literal_sound (value : Literal) :
    SoundValue layout method (fun store => return (literalValue ty? value, store))
      (Behaviour.literal value) := by
  intro session store memory fits covers
  refine .pure ⟨.refl _, fits, covers, ?_⟩
  cases value with
  | null => exact .loose (fun _ => rfl) _
  | bool holds => exact .loose (fun null => by simp at null) _
  | number text => exact .loose (fun null => by simp at null) _
  | string text => exact .loose (fun null => by simp at null) _

/-- A boolean literal rules out the outcome that it never has. -/
theorem literalBranches_sound (value : Literal) :
    SoundBranches layout method (fun store => return literalBranches value store)
      (Behaviour.literalDecision value) := by
  intro session store memory fits covers
  have unknown : Decides layout session session ⟨store, store⟩ memory.toss :=
    .same (.refl _) fits (covers.frame rfl)
  cases value with
  | bool holds =>
      cases holds with
      | true =>
          refine .pure ⟨.refl _, fits, fun holds => ?_, covers⟩
          cases holds
          · exact Store.within_unreachable _
          · exact covers.within
      | false =>
          refine .pure ⟨.refl _, fits, fun holds => ?_, covers⟩
          cases holds
          · exact covers.within
          · exact Store.within_unreachable _
  | null => exact .pure unknown
  | number text => exact .pure unknown
  | string text => exact .pure unknown

/-- A default value that is null at run time may be null in the analysis. -/
theorem default_sound :
    SoundValue layout method
      (fun store => return (.loose (defaultState ty?) (ty?.map (Ty.withState (defaultState ty?))),
        store)) (Behaviour.default ty?) := by
  intro session store memory fits covers
  refine .pure ⟨.refl _, fits, covers, .loose (fun null => ?_) _⟩
  cases ty? with
  | none => rfl
  | some ty =>
      cases ty with
      | value name mark => cases null
      | _ => rfl

/-- A cast keeps the value, and at null it stops if its type has no null. -/
theorem castRule_sound {operand : Part} {behaviour : Behaviour}
    (sound : operand.get.Sound layout method behaviour) :
    SoundValue layout method (castRule ty? operand) (behaviour.cast ty?) := by
  intro session store memory fits covers
  refine (sound.value fits covers).bind (fun _ => .pure _) fun {after result answer} yields => ?_
  by_cases stops : (answer.1 && ty?.any Ty.isValue) = true
  · dsimp only
    rw [if_pos stops]
    exact .stop rfl
  · dsimp only
    rw [if_neg stops]
    refine .pure ⟨yields.slots, yields.fits, yields.covers, fun null => ?_, yields.value.place,
      yields.value.seeds⟩
    rw [null, Bool.true_and] at stops
    cases ty? with
    | none => exact yields.value.state null
    | some ty =>
        cases ty with
        | value name mark => exact absurd rfl stops
        | _ => exact yields.value.state null

section Assign

/-- A plain value is written to the slot of a local when the execution stores it in the local. -/
theorem write_yields {before after later : Session} {value : Value} {store : Store}
    {answer : Bool × Memory} {slot : SlotId} {id : LocalId}
    (yields : Yields layout before after (value, store) answer)
    (flat : value.ty?.all Ty.isFlat = true) (extended : after.slots.Extends later.slots)
    (fits : layout.Fits later.slots) (found : later.slots.key? slot = some (.localVar id)) :
    Yields layout before (Analysis.onSlots (store.write (some slot) value) later).2
      (⟨value.state, value.ty?, some slot, []⟩,
        (Analysis.onSlots (store.write (some slot) value) later).1)
      (answer.1, answer.2.write id answer.1) := by
  have written : Analysis.onSlots (store.write (some slot) value) later =
      ((store.forget (later.slots.descendants slot)).assign (some slot) value.state, later) := by
    rw [Comparison.onSlots_write flat, yields.value.seeds]
    rfl
  rw [written]
  have covers := yields.covers.extend yields.fits fits extended
  refine ⟨yields.slots.trans extended, fits, covers.write fits found yields.value.state,
    yields.value.state, fun place same => ?_, rfl⟩
  obtain rfl : slot = place := Option.some.inj same
  exact ⟨id, found, if_pos rfl⟩

/-- An assignment to a variable records what the variable holds from then on. -/
theorem assignRule_sound {target operand : Part} {behaviour : Behaviour}
    (covered : layout.coversVariable source = true)
    (isVariable : target.target = variableTarget source)
    (sound : operand.get.Sound layout method behaviour) :
    SoundValue layout method (assignRule context target operand) (behaviour.assign source) := by
  intro session store memory fits covers
  obtain ⟨extended, fitsAfter, found, coversAfter⟩ := intern_covers covered fits covers
  have targeted : variableTarget source store session =
      ((⟨some (SlotTable.intern (.localVar source.id) source.ty.declaredState session.slots).1,
          some source.ty, source.implicit, false⟩, store),
        { session with slots :=
          (SlotTable.intern (.localVar source.id) source.ty.declaredState session.slots).2 }) := rfl
  generalize SlotTable.intern (.localVar source.id) source.ty.declaredState session.slots =
    interned at *
  rw [Comparison.assignRule_eq, isVariable]
  refine .first ?_
  rw [targeted]
  let declared : Session := { session with slots := interned.2 }
  have fitsDeclared : layout.Fits declared.slots := fitsAfter
  refine (sound.value_flat fitsDeclared coversAfter).bind (fun _ => ?_) fun {after result answer} ⟨yields, flat⟩ => ?_
  · exact .bind (.checkTarget _ _ _ _) fun _ => .bind (.record _ _ _) fun _ => .pure _
  · refine .silent (.checkTarget _ _ _ _) fun {later} same => .first ?_
    have isPlace := yields.slots.key? found
    rw [← same] at isPlace
    have written := write_yields yields flat (same ▸ .refl _) (same ▸ yields.fits) isPlace
    exact .pure ⟨extended.trans written.slots, written.fits, written.covers, written.value⟩

end Assign

end NullFlow

/-!
The rules for choices and fallbacks are sound. One side is evaluated, and both are analyzed.
-/

namespace NullFlow

variable {context : Context} {layout : Layout} {method : String} {ty? : Option Ty}
  {condition left right : Part} {behaviour first second : Behaviour}

/-- The value of a choice. If one side is never reached, it is the value of the other one. -/
def chosen (context : Context) (ty? : Option Ty) (branches : Branches) (one two : Value) : Value :=
  .loose (Comparison.chosenState branches one two)
    (Comparison.chosenType? context ty? branches one two)

/-- A conditional joins the stores after both arms, and chooses its state by which branches are
live. -/
theorem conditionalRule_eq (store : Store) : conditionalRule context ty? condition left right store =
    (do
      let branches ← condition.branches store
      let one ← left.value branches.whenTrue
      let two ← right.value branches.whenFalse
      let table ← Analysis.slots
      return (chosen context ty? branches one.1 two.1, one.2.join table two.2)) := by
  unfold conditionalRule chosen Comparison.chosenState Comparison.chosenType?
  refine congrArg _ (funext fun branches => congrArg _ (funext fun one => ?_))
  obtain ⟨one, afterOne⟩ := one
  dsimp only
  refine congrArg _ (funext fun two => ?_)
  obtain ⟨two, afterTwo⟩ := two
  refine congrArg _ (funext fun table => ?_)
  cases branches.whenTrue.isReachable <;> cases branches.whenFalse.isReachable <;> rfl

/-- The value of a choice may be null if the value of a side that is reached may. -/
theorem chosen_true {branches : Branches} (reachable : branches.whenTrue.isReachable = true)
    {one two : Value} (null : one.state = .maybeNull) :
    Comparison.chosenState branches one two = .maybeNull := by
  unfold Comparison.chosenState
  rw [reachable, null]
  cases branches.whenFalse.isReachable <;> rfl

/-- A conditional may be null if its second arm may be and is reached. -/
theorem chosen_false {branches : Branches} (reachable : branches.whenFalse.isReachable = true)
    {one two : Value} (null : two.state = .maybeNull) :
    Comparison.chosenState branches one two = .maybeNull := by
  unfold Comparison.chosenState
  rw [reachable, null]
  cases branches.whenTrue.isReachable
  · rfl
  · exact FlowState.join_comm one.state .maybeNull

/-- Whichever arm a conditional takes, the joined value covers it. -/
theorem conditionalRule_sound (ofCondition : condition.get.Sound layout method behaviour)
    (ofLeft : left.get.Sound layout method first) (ofRight : right.get.Sound layout method second) :
    SoundValue layout method (conditionalRule context ty? condition left right)
      (behaviour.conditional first second) := by
  intro session store memory fits covers
  rw [conditionalRule_eq]
  refine (ofCondition.branches fits covers).bind
    (fun _ => .bind (ofLeft.orderly.records.value _) fun _ =>
      .bind (ofRight.orderly.records.value _) fun _ => .bind .slots fun _ => .pure _)
    fun {after branches answer} decides => ?_
  have taken := decides.covers
  cases holds : answer.1 with
  | true =>
      rw [holds] at taken
      refine (ofLeft.value decides.fits taken).finish (fun _ =>
        .bind (ofRight.orderly.records.value _) fun _ => .bind .slots fun _ => .pure _)
        fun {later one outcome} yields => ?_
      have skipped := ofRight.orderly.value yields.fits
        ((decides.within false).extend yields.slots)
      refine .first (.first (.pure
        ⟨(decides.slots.trans yields.slots).trans skipped.slots, skipped.fits, ?_, ?_⟩))
      · exact (yields.covers.extend yields.fits skipped.fits skipped.slots).join_left skipped.fits
          skipped.within
      · exact .loose (fun null => chosen_true taken.reachable (yields.value.state null)) _
  | false =>
      rw [holds] at taken
      have skipped := ofLeft.orderly.value decides.fits (decides.within true)
      refine .first ((ofRight.value skipped.fits
        (taken.extend decides.fits skipped.fits skipped.slots)).finish
        (fun _ => .bind .slots fun _ => .pure _) fun {later two outcome} yields => ?_)
      refine .first (.pure
        ⟨(decides.slots.trans skipped.slots).trans yields.slots, yields.fits, ?_, ?_⟩)
      · exact yields.covers.join_right yields.fits (skipped.within.extend yields.slots)
      · exact .loose (fun null => chosen_false taken.reachable (yields.value.state null)) _

section Fallbacks

variable {before after : Session} {answer : Bool × Memory}

/-- The value of a fallback covers its right operand, where that is evaluated. -/
theorem conclude_sound {one two : Value} {span : Span} {store : Store}
    (slots : before.slots.Extends after.slots) (fits : layout.Fits after.slots)
    (covers : store.Covers layout after.slots answer.2)
    (state : answer.1 = true → two.state = .maybeNull) :
    Attends method after (conclude context one two span store) (pure answer)
      (Yields layout before) := by
  have yields : ∀ ty?, Yields layout before after (.loose two.state ty?, store) answer :=
    fun ty? => ⟨slots, fits, covers, .loose state ty?⟩
  unfold conclude
  split
  · exact .silent (.checkShape _ _ _ _) fun same => .pure ((yields _).silent same)
  · exact .pure (yields _)

/-- The right side of a fallback is evaluated if the left one is null. Otherwise it is analyzed
without being evaluated. -/
theorem fallback_sound (ofRight : right.get.Sound layout method second) {result : Value × Store}
    (yields : Yields layout before after result answer) :
    Attends method after (fallback context result.1 right result.2)
      (if answer.1 then second.value answer.2 else return answer) (Yields layout before) := by
  have place := yields.value.place
  have within := fun state => place.within_assign yields.covers.within state
  cases isNull : answer.1 with
  | true =>
      have missing : (result.2.assign result.1.slot? .maybeNull).Covers layout after.slots
          answer.2 := yields.covers.learn yields.fits place fun _ => rfl
      refine (ofRight.value yields.fits missing).finish
        (fun _ => .bind .slots fun _ => .conclude context _ _ _ _)
        fun {later last outcome} evaluated => ?_
      refine .first (conclude_sound (yields.slots.trans evaluated.slots) evaluated.fits ?_
        evaluated.value.state)
      exact evaluated.covers.join_right evaluated.fits
        ((within .notNull).extend evaluated.slots)
  | false =>
      have present : (result.2.assign result.1.slot? .notNull).Covers layout after.slots
          answer.2 := yields.covers.learn yields.fits place fun null => by
        rw [isNull] at null
        cases null
      have skipped := ofRight.orderly.value yields.fits (within .maybeNull)
      refine .first (.first (conclude_sound (yields.slots.trans skipped.slots) skipped.fits ?_ ?_))
      · exact (present.extend yields.fits skipped.fits skipped.slots).join_left skipped.fits
          skipped.within
      · intro null
        rw [isNull] at null
        cases null

/-- The value of a fallback covers whichever operand it takes. -/
theorem coalesceRule_sound (ofLeft : left.get.Sound layout method first)
    (ofRight : right.get.Sound layout method second) :
    SoundValue layout method (coalesceRule context left right) (first.coalesce second) := by
  intro session store memory fits covers
  rw [coalesceRule_eq]
  have records : ∀ result : Value × Store, Records (fallback context result.1 right result.2) :=
    fun result => .fallback context ofRight.orderly.records _ _
  have notNull : Concludes (first.value memory) (fun _ => True)
      fun answer => left.isConstant = true → answer.1 = false := by
    cases isConstant : left.isConstant with
    | true => exact (ofLeft.constant isConstant memory).weaken (fun _ => id) fun _ same _ => same
    | false => exact Concludes.any _ fun _ never => by cases never
  refine ((ofLeft.value fits covers).knowing notNull).bind
    (fun result => .ite _ (.pure _) (.ite _ (.bind (.emit _) fun _ => records result) (records result)))
    fun {after result answer} ⟨yields, constant⟩ => ?_
  cases isConstant : left.isConstant with
  | true =>
      rw [constant isConstant]
      exact .pure ⟨yields.slots, yields.fits, yields.covers, .loose yields.value.state _⟩
  | false =>
      have fallsBack : ∀ {later : Session}, later.slots = after.slots → Attends method later
          (fallback context result.1 right result.2)
          (if answer.1 then second.value answer.2 else return answer) (Yields layout session) :=
        fun same => fallback_sound ofRight (yields.silent same)
      rw [if_neg Bool.false_ne_true]
      split
      · exact .silent (.emit _) fallsBack
      · exact fallsBack rfl

end Fallbacks

end NullFlow
