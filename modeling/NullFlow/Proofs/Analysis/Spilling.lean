import NullFlow.Proofs.Analysis.Confinement
import NullFlow.Proofs.Analysis.Narrowing
import NullFlow.Proofs.Store.Derivation
import NullFlow.Proofs.Store.Entries
/-!
Writes of types. The marks inside a type are recorded in the slots that its own steps lead to. Below
the place that is written all other entries are gone.
-/

namespace NullFlow

namespace SlotTable

variable {table before : SlotTable} {slot child : Nat} {steps others : List TyStep}

/-- Following positions inside a type is tracing their steps. -/
theorem follow_eq_trace (table : SlotTable) (steps : List TyStep) (slot : SlotId) :
    table.follow steps slot = table.trace (steps.map .inside) slot := by
  induction steps generalizing slot with
  | nil => rfl
  | cons step rest ih => exact Option.bind_congr fun child _ => ih child

/-- A position inside a type has a derived slot. -/
theorem derives_of_follow (nested : steps ≠ []) (found : table.follow steps slot = some child) :
    table.Derives slot child := by
  rw [follow_eq_trace] at found
  exact derives_of_trace (mt List.map_eq_nil_iff.mp nested) found

/-- Steps lead to younger slots. -/
theorem Rooted.follow_lt (rooted : table.Rooted) (nested : steps ≠ [])
    (found : table.follow steps slot = some child) : slot < child :=
  rooted.lt_of_derives (derives_of_follow nested found)

/-- Different steps lead to different slots. -/
theorem Rooted.follow_injective (rooted : table.Rooted) (found : table.follow steps slot = some child)
    (foundOther : table.follow others slot = some child) : steps = others := by
  rw [follow_eq_trace] at found foundOther
  refine List.map_injective_iff.mpr ?_ (rooted.trace_injective found foundOther)
  exact fun _ _ same => SlotStep.inside.inj same

/-- Slots that steps lead to are derived from their start. -/
theorem Rooted.mem_descendants_of_follow (rooted : table.Rooted) (keeps : before.Keeps table)
    (nested : steps ≠ []) (found : table.follow steps slot = some child) (old : child < before.size) :
    child ∈ before.descendants slot :=
  (keeps.rooted rooted).mem_descendants_iff.mpr
    (keeps.derives_of_lt rooted old (derives_of_follow nested found))

end SlotTable

namespace Store

/-- All that changes from the first store to the second are the slots below a slot, and these record
what is given for the steps to them. Where nothing is given, an entry stays. -/
structure Records (table : SlotTable) (slot : SlotId) (recorded : List TyStep → Option FlowState)
    (first second : Store) : Prop where
  live : second.Live
  reached : ∀ {steps state}, steps ≠ [] → recorded steps = some state →
    ∃ child, table.follow steps slot = some child
  inside : ∀ {steps child}, steps ≠ [] → table.follow steps slot = some child →
    second.explicit (some child) = (recorded steps).or (first.explicit (some child))
  outside : ∀ {other}, (∀ steps, steps ≠ [] → table.follow steps slot ≠ some other) →
    second.explicit (some other) = first.explicit (some other)

section Records

variable {table : SlotTable} {slot child : SlotId} {one two : List TyStep → Option FlowState}
  {first second third : Store}

theorem Records.nothing (live : first.Live) : Records table slot (fun _ => none) first first where
  live
  reached _ none := by cases none
  inside _ _ := rfl
  outside _ := rfl

/-- Of two changes the later one counts. -/
theorem Records.trans (early : Records table slot one first second)
    (late : Records table slot two second third) :
    Records table slot (fun steps => (two steps).or (one steps)) first third where
  live := late.live
  reached nested recorded := by
    rcases Option.or_eq_some_iff.mp recorded with given | ⟨_, given⟩
    · exact late.reached nested given
    · exact early.reached nested given
  inside nested found := by
    rw [late.inside nested found, early.inside nested found, Option.or_assoc]
  outside apart := (late.outside apart).trans (early.outside apart)

/-- What is recorded below a slot depends on the nested positions alone. -/
theorem Records.congr (records : Records table slot one first second)
    (same : ∀ steps, steps ≠ [] → one steps = two steps) : Records table slot two first second where
  live := records.live
  reached nested recorded := records.reached nested ((same _ nested).trans recorded)
  inside nested found := same _ nested ▸ records.inside nested found
  outside := records.outside

/-- Records the state of a slot if it is given. -/
def note (slot : SlotId) (state? : Option FlowState) (store : Store) : Store :=
  match state? with
  | some state => store.assign (some slot) state
  | none => store

/-- Noting a state records it for one slot, and noting none records nothing. -/
theorem explicit_note (live : first.Live) (slot other : SlotId) (state? : Option FlowState) :
    (first.note slot state?).explicit (some other) =
      if other = slot then state?.or (first.explicit (some slot))
      else first.explicit (some other) := by
  cases state? with
  | none =>
      by_cases same : other = slot
      · rw [if_pos same, same]
        rfl
      · rw [if_neg same]
        rfl
  | some state => exact explicit_assign live slot other state

/-- What is given for the steps behind a first step. -/
def behind (step : TyStep) (recorded : List TyStep → Option FlowState) :
    List TyStep → Option FlowState
  | [] => none
  | first :: rest => if first = step then recorded rest else none

/-- A change below a slot and of the slot itself is a change below the slot that it is derived from
by a step. -/
theorem Records.enter (rooted : table.Rooted) {step : TyStep}
    (isChild : table.get? (step.key slot) = some child)
    (live : first.Live)
    (records : Records table child one (first.note child (one [])) second) :
    Records table slot (behind step one) first second := by
  have entered (other : SlotId) := explicit_note live child other (one [])
  have through (rest : List TyStep) :
      table.follow (step :: rest) slot = table.follow rest child := by
    rw [SlotTable.follow, isChild]
    rfl
  have notBelowItself : ∀ steps, steps ≠ [] → table.follow steps child ≠ some child :=
    fun steps nested found => Nat.lt_irrefl _ (rooted.follow_lt nested found)
  refine ⟨records.live, ?_, ?_, ?_⟩
  · intro steps state nested recorded
    cases steps with
    | nil => exact absurd rfl nested
    | cons other rest =>
        rw [behind] at recorded
        split at recorded
        · rename_i same
          subst same
          rw [through]
          by_cases last : rest = []
          · exact last ▸ ⟨child, rfl⟩
          · exact records.reached last recorded
        · cases recorded
  · intro steps place nested found
    cases steps with
    | nil => exact absurd rfl nested
    | cons other rest =>
        rw [behind]
        split
        · rename_i same
          subst same
          rw [through] at found
          by_cases last : rest = []
          · subst last
            obtain rfl := Option.some.inj found
            rw [records.outside notBelowItself, entered, if_pos rfl]
          · have differ : place ≠ child := fun same =>
              notBelowItself rest last (same ▸ found)
            rw [records.inside last found, entered, if_neg differ]
        · rename_i differ
          have elsewhere : ∀ steps, table.follow steps child ≠ some place := by
            intro steps toPlace
            have same := rooted.follow_injective found ((through steps).trans toPlace)
            exact differ (List.cons.inj same).1
          have apart : place ≠ child := fun same => elsewhere [] (congrArg some same.symm)
          rw [records.outside fun steps _ => elsewhere steps, entered, if_neg apart]
          rfl
  · intro other apart
    have elsewhere : ∀ steps, table.follow steps child ≠ some other := fun steps toOther =>
      apart (step :: steps) (List.cons_ne_nil _ _) ((through steps).trans toOther)
    have differ : other ≠ child := fun same => elsewhere [] (congrArg some same.symm)
    rw [records.outside fun steps _ => elsewhere steps, entered, if_neg differ]

end Records

section Spill

variable {table final : SlotTable} {store : Store}

/-- Recording a nested position notes its own state. -/
theorem record_fst (key : SlotKey) (ty : Ty) (store : Store) (table : SlotTable) :
    (store.record key ty table).1.2 =
      store.note (store.record key ty table).1.1 (ty.recorded? []) := by
  change (if ty.mark = .oblivious then store else store.assign (some _) ty.declaredState) =
    store.note _ (if ty.mark = .oblivious then none else some ty.declaredState)
  split <;> rfl

theorem get?_record (key : SlotKey) (ty : Ty) (store : Store) (table : SlotTable) :
    (store.record key ty table).2.get? key = some (store.record key ty table).1.1 :=
  (SlotTable.KeepsKeys.redeclare _ _ _).get? (SlotTable.get?_intern key ty.declaredState table)

theorem live_note (live : store.Live) (slot : SlotId) (state? : Option FlowState) :
    (store.note slot state?).Live := by
  cases state? with
  | none => exact live
  | some state => exact live.assign (some slot) state

/-- A type is recorded at the end of a step together with what is recorded inside it. -/
theorem Records.record (rooted : final.Rooted) (live : store.Live) {slot : SlotId} (step : TyStep)
    (ty : Ty) {next : Store}
    (keeps : (store.record (step.key slot) ty table).2.Keeps final)
    (records : Records final (store.record (step.key slot) ty table).1.1 ty.recorded?
      (store.record (step.key slot) ty table).1.2 next) :
    Records final slot (behind step ty.recorded?) store next := by
  rw [record_fst] at records
  exact .enter rooted (keeps.get? (get?_record (step.key slot) ty store table)) live records

/-- The first type argument is recorded behind its own step, and the others behind theirs. -/
theorem recordedFrom?_cons (ty : Ty) (rest : List Ty) (index : Nat) (steps : List TyStep)
    (nested : steps ≠ []) :
    (Ty.recordedFrom? (index + 1) rest steps).or (behind (.argument index) ty.recorded? steps) =
      Ty.recordedFrom? index (ty :: rest) steps := by
  cases steps with
  | nil => exact absurd rfl nested
  | cons step steps =>
      cases step with
      | element => rfl
      | argument position =>
          rw [Ty.recordedFrom?, Ty.recordedFrom?, behind]
          rcases Nat.lt_trichotomy position index with before | rfl | after
          · rw [if_neg (by omega), if_neg (by simp; omega), if_neg (by omega)]
            rfl
          · rw [if_neg (by omega), if_pos rfl, if_pos (Nat.le_refl _), Nat.sub_self]
            rfl
          · obtain ⟨distance, rfl⟩ := Nat.exists_eq_add_of_lt after
            have further : index + distance + 1 - index = distance + 1 := by omega
            have here : index + distance + 1 - (index + 1) = distance := by omega
            rw [if_pos (by omega), if_neg (by simp; omega), if_pos (by omega), further, here,
              Option.or_none, List.getElem?_cons_succ]

mutual

/-- A type is recorded at all its positions. -/
theorem spill_records (rooted : final.Rooted) : ∀ (ty : Ty) {table : SlotTable} {slot : SlotId}
    {store : Store}, store.Live → (store.spill slot ty table).2.Keeps final →
    Records final slot ty.recorded? store (store.spill slot ty table).1
  | .array element mark, table, slot, store, live, keeps => by
      have keepsInner := (spill_keeps element _ _ _).trans keeps
      have liveInner : (store.record (.element slot) element table).1.2.Live :=
        record_fst .. ▸ live_note live ..
      have inner := spill_records rooted element liveInner keeps
      refine (Records.record rooted live .element element keepsInner inner).congr ?_
      intro steps nested
      cases steps with
      | nil => exact absurd rfl nested
      | cons step rest => cases step <;> rfl
  | .named name arguments mark, _, _, _, live, keeps =>
      (spillAll_records rooted arguments 0 live keeps).congr fun _ nested =>
        (Ty.recorded?_named name arguments mark nested).symm
  | .null _, _, _, _, live, _ =>
      (Records.nothing live).congr fun _ nested => (Ty.recorded?_atom rfl rfl nested).symm
  | .value .., _, _, _, live, _ =>
      (Records.nothing live).congr fun _ nested => (Ty.recorded?_atom rfl rfl nested).symm
  | .parameter .., _, _, _, live, _ =>
      (Records.nothing live).congr fun _ nested => (Ty.recorded?_atom rfl rfl nested).symm
  | .delegate .., _, _, _, live, _ =>
      (Records.nothing live).congr fun _ nested => (Ty.recorded?_atom rfl rfl nested).symm
  | .dynamic _, _, _, _, live, _ =>
      (Records.nothing live).congr fun _ nested => (Ty.recorded?_atom rfl rfl nested).symm
  | .error .., _, _, _, live, _ =>
      (Records.nothing live).congr fun _ nested => (Ty.recorded?_atom rfl rfl nested).symm

/-- Type arguments are recorded position by position, each with the state of its mark. -/
theorem spillAll_records (rooted : final.Rooted) : ∀ (arguments : List Ty) (index : Nat)
    {table : SlotTable} {slot : SlotId} {store : Store}, store.Live →
    (store.spillAll slot index arguments table).2.Keeps final →
    Records final slot (Ty.recordedFrom? index arguments) store
      (store.spillAll slot index arguments table).1
  | [], index, _, _, _, live, _ => by
      refine (Records.nothing live).congr fun steps _ => ?_
      unfold Ty.recordedFrom?
      split
      · simp
      · rfl
  | ty :: rest, index, table, slot, store, live, keeps => by
      have keepsRest := (spillAll_keeps rest slot (index + 1) _ _).trans keeps
      have keepsInner := (spill_keeps ty _ _ _).trans keepsRest
      have liveInner : (store.record (.typeArgument slot index) ty table).1.2.Live :=
        record_fst .. ▸ live_note live ..
      have inner := spill_records rooted ty liveInner keepsRest
      have first := Records.record rooted live (.argument index) ty keepsInner inner
      exact (first.trans (spillAll_records rooted rest (index + 1) inner.live keeps)).congr
        (recordedFrom?_cons ty rest index)

end

end Spill

section Write

variable {table : SlotTable} {store : Store} {slot child : SlotId}

/-- Below the place of a write nothing is known but what the type of the value records. -/
theorem explicit_write (rooted : table.Rooted) (inside : slot < table.size) (live : store.Live)
    (within : store.Within table) (state : FlowState) (source? : Option SlotId) (written : Ty)
    {steps : List TyStep} (nested : steps ≠ []) :
    let after := store.write (some slot) ⟨state, some written, source?, []⟩ table
    (∀ {child}, after.2.follow steps slot = some child →
      after.1.explicit (some child) = written.recorded? steps) ∧
    ((written.recorded? steps).isSome → (after.2.follow steps slot).isSome) := by
  intro after
  let base := (store.forget (table.descendants slot)).assign (some slot) state
  have liveBase : base.Live := by
    simpa [base, Live] using live
  have place : Region.whole.Has table (some slot) := Region.has_some inside
  have evolves : table.Evolves after.2 :=
    (Region.allows_write trivial place (fun _ none => by cases none) within trivial).1
  have rootedAfter := evolves.grows.rooted rooted
  have spilled : after = base.spill slot written table := rfl
  have records : Records after.2 slot written.recorded? base after.1 :=
    spill_records rootedAfter written liveBase (.refl _)
  refine ⟨fun {child} found => ?_, fun recorded => ?_⟩
  · rw [records.inside nested found]
    have apart : child ≠ slot := (Nat.ne_of_gt (rootedAfter.follow_lt nested found))
    have forgotten : base.explicit (some child) = none := by
      rw [explicit_assign (by simpa [Live] using live), if_neg apart, explicit_forget]
      split
      · rfl
      · rename_i kept
        cases entry : store.explicit (some child) with
        | none => rfl
        | some known =>
            exact absurd (rootedAfter.mem_descendants_of_follow evolves.grows.keeps nested found
              (within child known entry)) kept
    rw [forgotten, Option.or_none]
  · obtain ⟨known, isKnown⟩ := Option.isSome_iff_exists.mp recorded
    obtain ⟨child, found⟩ := records.reached nested isKnown
    exact Option.isSome_iff_exists.mpr ⟨child, found⟩

end Write

end Store

end NullFlow
