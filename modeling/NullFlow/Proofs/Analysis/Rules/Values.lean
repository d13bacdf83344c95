import NullFlow.Proofs.Analysis.Tracking
/-!
The rules for places and values compare.
-/

namespace NullFlow.Comparison

variable {pair : Comparison} {tracked : Bool} {ty? : Option Ty}

section Leaves

theorem Related.placeOfSlot {first second : Session} {one two : Store} {slotOne slotTwo : SlotId}
    (slots : pair.Related slot first second slotOne slotTwo)
    (stores : pair.Related pair.stores first second one two) :
    pair.Related (pair.places true) first second (some slotOne, one) (some slotTwo, two) := by
  refine slots.with ⟨fun slot same => ?_, stores.fitsFirst, fun _ _ => rfl⟩
    ⟨fun slot same => ?_, stores.fitsSecond, fun _ _ => rfl⟩ fun known => ⟨?_, stores.alike known⟩
  · exact Option.some.inj same ▸ slots.fitsFirst
  · exact Option.some.inj same ▸ slots.fitsSecond
  · exact congrArg some (slots.alike known)

/-- A covered variable is read in both runs at its own place. -/
theorem readRule_tracks {source : Variable} (covered : pair.layout.coversVariable source = true) :
    pair.ValueTracks true (readRule source) := by
  intro first second one two related
  refine (Runs.intern related (Layout.state_of_variable covered) rfl).bind related.reached ?_
  intro first' second' slotOne slotTwo growsFirst growsSecond slots
  have flat : source.ty.isFlat = true := by
    rw [Layout.coversVariable, Bool.and_eq_true] at covered
    exact covered.1
  exact .withSlots (.pure ((slots.placeOfSlot (related.grow growsFirst growsSecond)).ofSlot flat))

/-- A covered variable is written in both runs at its own place. -/
theorem variableTarget_tracks {source : Variable}
    (covered : pair.layout.coversVariable source = true) :
    pair.TargetTracks true (variableTarget source) := by
  intro first second one two related
  refine (Runs.intern related (Layout.state_of_variable covered) rfl).bind related.reached ?_
  intro first' second' slotOne slotTwo growsFirst growsSecond slots
  have places := slots.placeOfSlot (related.grow growsFirst growsSecond)
  exact .pure (places.with places.fitsFirst places.fitsSecond fun known =>
    ⟨(places.alike known).1, rfl, (places.alike known).2⟩)

/-- The receiver of the method is read in both runs at its own place. -/
theorem thisRule_tracks {context : Context} (flatThis : context.thisType?.all Ty.isFlat = true)
    (flatType : ty?.all Ty.isFlat = true) : pair.ValueTracks true (thisRule context ty?) := by
  intro first second one two related
  refine (Runs.intern related rfl rfl).bind related.reached ?_
  intro first' second' slotOne slotTwo growsFirst growsSecond slots
  have places := slots.placeOfSlot (related.grow growsFirst growsSecond)
  have flat : (((context.thisType?.orElse fun _ => ty?).map (Ty.withState .notNull)).all
      Ty.isFlat) = true := by
    rw [Ty.all_isFlat_map_withState]
    cases isThis : context.thisType? with
    | none => exact flatType
    | some ty => rwa [isThis] at flatThis
  refine .pure (places.with ⟨⟨places.fitsFirst.inside, flat, by simp⟩, places.fitsFirst⟩
    ⟨⟨places.fitsSecond.inside, flat, by simp⟩, places.fitsSecond⟩ fun known => ?_)
  exact ⟨⟨(places.alike known).1, Bound.refl _, rfl, .nil⟩, (places.alike known).2⟩

/-- A rule that yields the same value in every store. -/
theorem constant_tracks {state : FlowState} (flatType : ty?.all Ty.isFlat = true) :
    pair.ValueTracks false fun store => return (.loose state ty?, store) := by
  intro first second one two related
  exact .pure (related.loose (related.states _) flatType flatType fun _ => rfl)

theorem literalValue_eq (ty? : Option Ty) (value : Literal) (flatType : ty?.all Ty.isFlat = true) :
    ∃ state flat?, literalValue ty? value = .loose state flat? ∧
      flat?.all Ty.isFlat = true := by
  cases value with
  | null =>
      refine ⟨_, _, rfl, ?_⟩
      cases ty? with
      | none => rfl
      | some ty => exact flatType
  | _ =>
      refine ⟨_, _, rfl, ?_⟩
      rwa [Ty.all_isFlat_map_withState]

theorem literal_tracks {value : Literal} (flatType : ty?.all Ty.isFlat = true) :
    pair.ValueTracks false fun store => return (literalValue ty? value, store) := by
  obtain ⟨state, flat?, same, flat⟩ := literalValue_eq ty? value flatType
  rw [same]
  exact constant_tracks flat

theorem literalBranches_track (value : Literal) :
    pair.BranchesTrack fun store => return literalBranches value store := by
  intro first second one two related
  cases value with
  | bool value =>
      cases value with
      | false => exact .pure (related.unreachable.branches related)
      | true => exact .pure (related.branches related.unreachable)
  | _ => exact .pure (related.branches related)

end Leaves

section Parts

variable {operand : Part} {outline : Outline}

/-- A value with another state and another type at the same place. -/
theorem Related.revalue {first second : Session} {one two : Store} {valueOne valueTwo : Value}
    {stateOne stateTwo : FlowState} {tyOne? tyTwo? : Option Ty}
    (values : pair.Related (pair.values tracked) first second (valueOne, one) (valueTwo, two))
    (states : pair.Related pair.states first second stateOne stateTwo)
    (flatOne : tyOne?.all Ty.isFlat = true) (flatTwo : tyTwo?.all Ty.isFlat = true)
    (shape : first.slots.Extends pair.target → tyOne?.map Ty.shape = tyTwo?.map Ty.shape) :
    pair.Related (pair.values tracked) first second
      ({ valueOne with state := stateOne, ty? := tyOne? }, one)
      ({ valueTwo with state := stateTwo, ty? := tyTwo? }, two) :=
  values.with ⟨⟨values.fitsFirst.1.inside, flatOne, values.fitsFirst.1.seeds⟩, values.fitsFirst.2⟩
    ⟨⟨values.fitsSecond.1.inside, flatTwo, values.fitsSecond.1.seeds⟩, values.fitsSecond.2⟩
    fun known => ⟨⟨(values.alike known).1.slot, states.alike known, shape known,
      (values.alike known).1.seeds⟩, (values.alike known).2⟩

/-- A cast tracks where its operand does. -/
theorem castRule_tracks (flatType : ty?.all Ty.isFlat = true)
    (tracks : pair.Tracks outline operand.get) :
    pair.ValueTracks outline.tracked (castRule ty? operand) := by
  intro first second one two related
  refine (tracks.value related).bind related.reached ?_
  rintro first' second' ⟨valueOne, one⟩ ⟨valueTwo, two⟩ _ _ values
  refine .pure (values.revalue (?_ : pair.Related pair.states _ _ _ _) (by simpa using flatType)
    (by simpa using flatType) fun _ => by simp only [Ty.map_shape_map_withState])
  split
  · exact values.stores_of_values.states _
  · exact values.states_of_values

/-- A suppressed operand tracks where the operand does. -/
theorem suppressRule_tracks (tracks : pair.Tracks outline operand.get) :
    pair.ValueTracks outline.tracked (suppressRule operand) := by
  intro first second one two related
  refine (tracks.value related).bind related.reached ?_
  rintro first' second' ⟨valueOne, one⟩ ⟨valueTwo, two⟩ _ _ values
  have notNull := values.stores_of_values.states .notNull
  have suppressed : ∀ {table : SlotTable} {value : Value}, value.Fits pair.layout table →
      value.ty?.map (fun ty => ty.obliviousNested.withState .notNull) =
        value.ty?.map (Ty.withState .notNull) := by
    intro table value fits
    refine Option.map_congr fun ty isTy => ?_
    have flat := fits.flat
    rw [isTy, Option.all_some] at flat
    rw [Ty.isFlat_obliviousNested flat]
  have assigned := values.place_of_values.assign notNull values.stores_of_values
  have places := values.places_of_values.placeStores assigned (by simp) (by simp)
  have revalued := values.revalue notNull
    ((Ty.all_isFlat_map_withState _ .notNull).trans values.fitsFirst.1.flat)
    ((Ty.all_isFlat_map_withState _ .notNull).trans values.fitsSecond.1.flat) fun known => by
      simpa only [Ty.map_shape_map_withState] using (values.alike known).1.shape
  simp only [suppressed values.fitsFirst.1, suppressed values.fitsSecond.1]
  exact .pure (revalued.with ⟨revalued.fitsFirst.1, places.fitsFirst⟩
    ⟨revalued.fitsSecond.1, places.fitsSecond⟩ fun known =>
      ⟨(revalued.alike known).1, (places.alike known).2⟩)

end Parts

end NullFlow.Comparison
