import NullFlow.Analysis.Value
import NullFlow.Proofs.Store.Layout
import NullFlow.Proofs.Store.Lookup
/-!
Comparisons of stores. Two runs of the analysis may meet the same code with different stores and
with slot tables of different size. The second table contains the first one, and the stores are
compared by what they know of the slots of the second table.
-/

namespace NullFlow

namespace FlowState

theorem le_refl (state : FlowState) : state ≤ state := by
  cases state <;> rfl

theorem le_maybeNull (state : FlowState) : state ≤ .maybeNull := by
  cases state <;> rfl

theorem notNull_le (state : FlowState) : .notNull ≤ state := rfl

/-- States above each other are the same. -/
theorem le_antisymm {first second : FlowState} (below : first ≤ second) (above : second ≤ first) :
    first = second := by
  cases first <;> cases second
  · rfl
  · exact absurd above (by decide)
  · exact absurd below (by decide)
  · rfl

theorem join_comm (first second : FlowState) : first.join second = second.join first := by
  cases first <;> cases second <;> rfl

end FlowState

/-- How two states compare. -/
inductive Bound where
  | exact
  /-- The second state may know less. -/
  | upper

namespace Bound

variable {bound : Bound} {first second : FlowState}

def Holds : Bound → FlowState → FlowState → Prop
  | exact, first, second => first = second
  | upper, first, second => first ≤ second

theorem refl (state : FlowState) : bound.Holds state state := by
  cases bound with
  | exact => rfl
  | upper => exact state.le_refl

/-- Two compared states are equal, or the second one knows nothing. -/
theorem Holds.cases (holds : bound.Holds first second) :
    first = second ∨ bound = .upper ∧ first = .notNull ∧ second = .maybeNull := by
  cases bound with
  | exact => exact Or.inl holds
  | upper =>
      cases first <;> cases second
      · exact Or.inl rfl
      · exact Or.inr ⟨rfl, rfl, rfl⟩
      · cases holds
      · exact Or.inl rfl

/-- The bound of a state that may be null may be null. -/
theorem Holds.of_maybeNull (holds : bound.Holds .maybeNull second) : second = .maybeNull := by
  rcases holds.cases with rfl | ⟨_, impossible, _⟩
  · rfl
  · cases impossible

theorem upper_holds (state : FlowState) : Bound.upper.Holds state .maybeNull := state.le_maybeNull

/-- Bounds on states pass to joins. -/
theorem Holds.join {third fourth : FlowState} (left : bound.Holds first second)
    (right : bound.Holds third fourth) : bound.Holds (first.join third) (second.join fourth) := by
  rcases left.cases with rfl | ⟨rfl, rfl, rfl⟩
  · rcases right.cases with rfl | ⟨rfl, rfl, rfl⟩
    · exact refl _
    · cases first
      · exact upper_holds _
      · exact refl _
  · exact upper_holds _

end Bound

namespace Store

variable {table target : SlotTable} {first second : Store}

/-- The store records states of slots of the table alone. -/
def Within (store : Store) (table : SlotTable) : Prop :=
  ∀ (slot : Nat) state, store.facts.get? slot = some state → slot < table.size

/-- A store of a table is one of every extension. -/
theorem Within.extend {store : Store} (within : store.Within table)
    (extended : table.Extends target) : store.Within target := fun slot state found =>
  Nat.lt_of_lt_of_le (within slot state found) extended.size_le

/-- A slot without a record is in its declared state. -/
theorem lookup_some (store : Store) (table : SlotTable) (slot : SlotId) :
    store.lookup table (some slot) = (store.facts.get? slot).getD (table.declared slot) := rfl

theorem lookup_unreachable (table : SlotTable) (slot : SlotId) :
    Store.unreachable.lookup table (some slot) = table.declared slot := rfl

/-- A table that contains the slots of a store shows the same states as the first table. -/
theorem lookup_extends {store : Store} (extended : table.Extends target) {slot : Nat}
    (inside : slot < table.size) :
    store.lookup target (some slot) = store.lookup table (some slot) := by
  rw [lookup_some, lookup_some, extended.declared inside]

/-- Outside its table a store knows what is declared. -/
theorem Within.lookup_outside {store : Store} (within : store.Within table) {slot : Nat}
    (outside : table.size ≤ slot) : store.lookup target (some slot) = target.declared slot := by
  rw [lookup_some]
  cases found : store.facts.get? slot with
  | none => rfl
  | some state =>
      have := within slot state found
      omega

section Assign

@[simp] theorem assign_none (store : Store) (state : FlowState) :
    store.assign none state = store := by
  cases store <;> rfl

@[simp] theorem isReachable_assign (store : Store) (slot? : Option SlotId) (state : FlowState) :
    (store.assign slot? state).isReachable = store.isReachable := by
  cases store <;> cases slot? <;> rfl

/-- An assignment changes the state of one slot. -/
theorem lookup_assign {store : Store} (reachable : store.isReachable = true) (slot other : SlotId)
    (state : FlowState) :
    (store.assign (some slot) state).lookup table (some other) =
      if other = slot then state else store.lookup table (some other) := by
  cases store with
  | unreachable => cases reachable
  | reachable facts =>
      simp only [assign, lookup_some, Store.facts, SortedMap.get?_insert]
      split <;> rfl

/-- An assignment to a slot of the table stays in the table. -/
theorem Within.assign {store : Store} (within : store.Within table) {slot? : Option SlotId}
    (inside : ∀ slot : Nat, slot? = some slot → slot < table.size) (state : FlowState) :
    (store.assign slot? state).Within table := by
  cases slot? with
  | none => rwa [assign_none]
  | some slot =>
      cases store with
      | unreachable => exact within
      | reachable facts =>
          intro other found atOther
          simp only [Store.assign, Store.facts, SortedMap.get?_insert] at atOther
          split at atOther
          · rename_i same
            exact same ▸ inside slot rfl
          · exact within other found atOther

end Assign

section Forget

@[simp] theorem isReachable_forget (store : Store) (slots : List SlotId) :
    (store.forget slots).isReachable = store.isReachable := by
  cases store <;> rfl

/-- Slots that are forgotten fall back to their declared states. -/
theorem lookup_forget (store : Store) (slots : List SlotId) (other : SlotId) :
    (store.forget slots).lookup table (some other) =
      if other ∈ slots then table.declared other else store.lookup table (some other) := by
  cases store with
  | unreachable => simp [forget, lookup_unreachable]
  | reachable facts =>
      simp only [forget, lookup_some, Store.facts, SortedMap.get?_keep]
      by_cases dropped : other ∈ slots
      · simp [dropped]
      · simp [dropped]

theorem Within.forget {store : Store} (within : store.Within table) (slots : List SlotId) :
    (store.forget slots).Within table := by
  cases store with
  | unreachable => exact within
  | reachable facts =>
      intro other found atOther
      simp only [Store.forget, Store.facts, SortedMap.get?_keep] at atOther
      split at atOther
      · exact within other found atOther
      · cases atOther

end Forget

section Join

@[simp] theorem join_unreachable (store : Store) : store.join table .unreachable = store := by
  cases store <;> rfl

@[simp] theorem unreachable_join (store : Store) : Store.unreachable.join table store = store := rfl

/-- A join is reached if one of its stores is. -/
@[simp] theorem isReachable_join :
    (first.join table second).isReachable = (first.isReachable || second.isReachable) := by
  cases first <;> cases second <;> rfl

/-- The tables declare the same of every slot of which the store records that it is not null. -/
def Agrees (store : Store) (table target : SlotTable) : Prop :=
  ∀ (slot : Nat) state, store.facts.get? slot = some state →
    state = .maybeNull ∨ target.declared slot = table.declared slot

/-- A store of a table reads the same in every extension. -/
theorem Within.agrees {store : Store} (within : store.Within table)
    (extended : table.Extends target) : store.Agrees table target := fun slot state found =>
  Or.inr (extended.declared (within slot state found))

/-- Joins with the declared state are the same in every table with which the store agrees. -/
theorem Agrees.join_declared {store : Store} (agrees : store.Agrees table target) {slot : Nat}
    {state : FlowState} (found : store.facts.get? slot = some state) :
    state.join (table.declared slot) = state.join (target.declared slot) := by
  rcases agrees slot state found with rfl | same
  · rfl
  · rw [same]

/-- A join of live stores joins the states of every slot. -/
theorem lookup_join (agreesFirst : first.Agrees table target)
    (agreesSecond : second.Agrees table target) (reachableFirst : first.isReachable = true)
    (reachableSecond : second.isReachable = true) (slot : Nat) :
    (first.join table second).lookup target (some slot) =
      (first.lookup target (some slot)).join (second.lookup target (some slot)) := by
  cases first with
  | unreachable => cases reachableFirst
  | reachable left =>
      cases second with
      | unreachable => cases reachableSecond
      | reachable right =>
          simp only [join, lookup_some, Store.facts, SortedMap.get?_unionWith]
          cases atLeft : left.get? slot with
          | none =>
              cases atRight : right.get? slot with
              | none => cases target.declared slot <;> rfl
              | some state =>
                  simp only [SortedMap.merged, Option.getD_some, Option.getD_none,
                    agreesSecond.join_declared atRight]
                  exact FlowState.join_comm _ _
          | some state =>
              cases atRight : right.get? slot with
              | none =>
                  simp only [SortedMap.merged, Option.getD_some, Option.getD_none,
                    agreesFirst.join_declared atLeft]
              | some other => rfl

/-- A join of stores of a table is one, whatever table the join reads. -/
theorem Within.join (withinFirst : first.Within table) (withinSecond : second.Within table)
    (other : SlotTable) : (first.join other second).Within table := by
  cases first with
  | unreachable => exact withinSecond
  | reachable left =>
      cases second with
      | unreachable => exact withinFirst
      | reachable right =>
          intro slot state found
          simp only [Store.join, Store.facts, SortedMap.get?_unionWith] at found
          cases atLeft : left.get? slot with
          | some old => exact withinFirst slot old atLeft
          | none =>
              cases atRight : right.get? slot with
              | some old => exact withinSecond slot old atRight
              | none => simp [atLeft, atRight, SortedMap.merged] at found

end Join

/-- The two stores are reachable alike and compare on every slot of the table. -/
structure Matches (bound : Bound) (target : SlotTable) (first second : Store) : Prop where
  reachable : first.isReachable = second.isReachable
  states : ∀ slot : Nat,
    bound.Holds (first.lookup target (some slot)) (second.lookup target (some slot))

section Matching

variable {bound : Bound}

theorem Matches.refl (store : Store) : Matches bound target store store :=
  ⟨rfl, fun _ => Bound.refl _⟩

theorem Matches.unreachable : Matches bound target .unreachable .unreachable := .refl _

/-- Two unreachable stores match, and reachable ones match by their states. -/
theorem matches_of_states (reachable : first.isReachable = second.isReachable)
    (states : first.isReachable = true → ∀ slot : Nat,
      bound.Holds (first.lookup target (some slot)) (second.lookup target (some slot))) :
    Matches bound target first second := by
  refine ⟨reachable, fun slot => ?_⟩
  cases first with
  | unreachable =>
      cases second with
      | unreachable => exact Bound.refl _
      | reachable facts => cases reachable
  | reachable facts => exact states rfl slot

/-- Stores that match do so after assignments of states that match. -/
theorem Matches.assign (same : Matches bound target first second) (slot? : Option SlotId)
    {state other : FlowState} (holds : bound.Holds state other) :
    Matches bound target (first.assign slot? state) (second.assign slot? other) := by
  refine matches_of_states (by simpa using same.reachable) fun reachable slot => ?_
  rw [isReachable_assign] at reachable
  cases slot? with
  | none => simpa using same.states slot
  | some place =>
      rw [lookup_assign reachable, lookup_assign (same.reachable ▸ reachable)]
      split
      · exact holds
      · exact same.states slot

/-- A store that learns that a slot is not null stays below one that does not learn it. -/
theorem Matches.assign_notNull (same : Matches .upper target first second)
    (slot? : Option SlotId) : Matches .upper target (first.assign slot? .notNull) second := by
  refine matches_of_states (by simpa using same.reachable) fun reachable slot => ?_
  rw [isReachable_assign] at reachable
  cases slot? with
  | none => simpa using same.states slot
  | some place =>
      rw [lookup_assign reachable]
      split
      · exact FlowState.notNull_le _
      · exact same.states slot

/-- What the second store records of slots outside the table is that they may be null. -/
theorem Matches.agrees {later : SlotTable} (same : Matches bound target first second)
    (within : first.Within target) (reached : target.Extends later) :
    second.Agrees later target := by
  intro slot state found
  by_cases inside : slot < target.size
  · exact Or.inr (reached.declared inside).symm
  · have holds := same.states slot
    rw [within.lookup_outside (Nat.le_of_not_lt inside), lookup_some second, found,
      SlotTable.declared_outside (Nat.le_of_not_lt inside)] at holds
    exact Or.inl (holds.of_maybeNull)

/-- The joins of matching stores match, although they are made with tables of different size. -/
theorem Matches.join {third fourth : Store} {table later : SlotTable}
    (extended : table.Extends target) (reached : target.Extends later)
    (withinFirst : first.Within table) (withinThird : third.Within table)
    (left : Matches bound target first second) (right : Matches bound target third fourth) :
    Matches bound target (first.join table third) (second.join later fourth) := by
  refine matches_of_states (by simp [left.reachable, right.reachable]) fun reachable slot => ?_
  cases reachableFirst : first.isReachable with
  | false =>
      have reachableSecond := left.reachable ▸ reachableFirst
      cases first with
      | reachable facts => cases reachableFirst
      | unreachable =>
          cases second with
          | reachable facts => cases reachableSecond
          | unreachable => exact right.states slot
  | true =>
      have reachableSecond := left.reachable ▸ reachableFirst
      cases reachableThird : third.isReachable with
      | false =>
          have reachableFourth := right.reachable ▸ reachableThird
          cases third with
          | reachable facts => cases reachableThird
          | unreachable =>
              cases fourth with
              | reachable facts => cases reachableFourth
              | unreachable =>
                  rw [join_unreachable, join_unreachable]
                  exact left.states slot
      | true =>
          have agreesSecond := left.agrees (withinFirst.extend extended) reached
          have agreesFourth := right.agrees (withinThird.extend extended) reached
          rw [lookup_join (withinFirst.agrees extended) (withinThird.agrees extended)
              reachableFirst reachableThird,
            lookup_join agreesSecond agreesFourth reachableSecond
              (right.reachable ▸ reachableThird)]
          exact (left.states slot).join (right.states slot)

/-- Dropping what is derived from a slot, in both tables. -/
theorem Matches.forget {table later : SlotTable} {layout : Layout} (extended : table.Extends later)
    (fits : layout.Fits table) (within : first.Within table)
    (same : Matches bound target first second) (slot : SlotId) :
    Matches bound target (first.forget (table.descendants slot))
      (second.forget (later.descendants slot)) := by
  refine ⟨by simpa using same.reachable, fun other => ?_⟩
  rw [lookup_forget, lookup_forget]
  by_cases inside : other < table.size
  · simp only [extended.mem_descendants fits slot inside]
    split
    · exact Bound.refl _
    · exact same.states other
  · have outside : first.lookup target (some other) = target.declared other :=
      within.lookup_outside (Nat.le_of_not_lt inside)
    have notBelow : other ∉ table.descendants slot := fun member =>
      inside (SlotTable.mem_derived_lt member)
    rw [if_neg notBelow]
    split
    · rw [outside]
      exact Bound.refl _
    · exact same.states other

end Matching

section Invalidate

/-- Drops what is derived from slots and records that the slots may be null. -/
def invalidateAll (table : SlotTable) (slots : List SlotId) (store : Store) : Store :=
  slots.foldl
    (fun store slot => (store.forget (table.descendants slot)).assign (some slot) .maybeNull) store

/-- An invalidation takes the slots of the name one after the other. -/
theorem invalidate_eq (table : SlotTable) (name : String) (store : Store) :
    store.invalidate table name = invalidateAll table (table.membersNamed name) store := rfl

theorem isReachable_invalidateAll (table : SlotTable) (slots : List SlotId) (store : Store) :
    (invalidateAll table slots store).isReachable = store.isReachable := by
  induction slots generalizing store with
  | nil => rfl
  | cons slot rest ih =>
      rw [invalidateAll, List.foldl_cons]
      exact (ih _).trans (by simp)

/-- Invalidating slots of the table stays in the table. -/
theorem Within.invalidateAll {store : Store} (within : store.Within table)
    {slots : List SlotId} (inside : ∀ slot ∈ slots, slot < table.size) :
    (Store.invalidateAll table slots store).Within table := by
  induction slots generalizing store with
  | nil => exact within
  | cons slot rest ih =>
      rw [Store.invalidateAll, List.foldl_cons]
      refine ih ((within.forget _).assign (fun other same => ?_) _) fun other member =>
        inside other (List.mem_cons_of_mem _ member)
      obtain rfl : slot = other := by simpa using same
      exact inside slot List.mem_cons_self

/-- The slots themselves may be null, and what is derived from them is as declared. -/
theorem lookup_invalidateAll {layout : Layout} (fits : layout.Fits table) {store : Store}
    (reachable : store.isReachable = true) {slots : List SlotId}
    (ascending : slots.Pairwise (· < ·)) (other : Nat) :
    (invalidateAll table slots store).lookup target (some other) =
      if other ∈ slots then .maybeNull
      else if ∃ slot ∈ slots, other ∈ table.descendants slot then target.declared other
      else store.lookup target (some other) := by
  induction slots generalizing store with
  | nil => simp [invalidateAll]
  | cons slot rest ih =>
      obtain ⟨above, ascendingRest⟩ := List.pairwise_cons.mp ascending
      rw [invalidateAll, List.foldl_cons]
      refine (ih (by simpa using reachable) ascendingRest).trans ?_
      rw [lookup_assign (by simpa using reachable), lookup_forget]
      by_cases isSlot : other = slot
      · subst isSlot
        have notBelow : ¬∃ later ∈ rest, other ∈ table.descendants later := by
          rintro ⟨later, member, below⟩
          have older := SlotTable.lt_of_mem_descendants fits below
          exact Nat.lt_asymm older (above later member)
        simp [notBelow]
      · by_cases inRest : other ∈ rest
        · simp [inRest]
        · by_cases belowRest : ∃ later ∈ rest, other ∈ table.descendants later
          · simp [isSlot, inRest, belowRest]
          · by_cases belowSlot : other ∈ table.descendants slot
            · simp [isSlot, inRest, belowRest, belowSlot]
            · simp [isSlot, inRest, belowRest, belowSlot]

/-- The slots of a name come in the order of their creation. -/
theorem membersNamed_ascending (table : SlotTable) (name : String) :
    (table.membersNamed name).Pairwise (· < ·) := List.pairwise_lt_range.filter _

/-- Members that only the second table has can make its store know less, but never more. -/
theorem Matches.invalidate {table later : SlotTable} {layout : Layout}
    (extended : table.Extends later) (fits : layout.Fits table) (fitsLater : layout.Fits later)
    (within : first.Within table) (same : Matches .upper target first second) (name : String) :
    Matches .upper target (first.invalidate table name) (second.invalidate later name) := by
  refine matches_of_states ?_ fun reachable other => ?_
  · rw [invalidate_eq, invalidate_eq, isReachable_invalidateAll, isReachable_invalidateAll]
    exact same.reachable
  · rw [invalidate_eq, isReachable_invalidateAll] at reachable
    rw [invalidate_eq, invalidate_eq,
      lookup_invalidateAll fits reachable (membersNamed_ascending table name),
      lookup_invalidateAll fitsLater (same.reachable ▸ reachable)
        (membersNamed_ascending later name)]
    have named : ∀ slot : Nat, slot ∈ table.membersNamed name → slot ∈ later.membersNamed name :=
      fun slot member => by
        rw [SlotTable.mem_membersNamed] at member ⊢
        obtain ⟨parent, found⟩ := member
        exact ⟨parent, extended.key? found⟩
    by_cases isNamed : other ∈ later.membersNamed name
    · rw [if_pos isNamed]
      exact FlowState.le_maybeNull _
    · rw [if_neg isNamed, if_neg fun member => isNamed (named other member)]
      by_cases inside : other < table.size
      · have sameBelow : (∃ slot ∈ table.membersNamed name, other ∈ table.descendants slot) →
            ∃ slot ∈ later.membersNamed name, other ∈ later.descendants slot := by
          rintro ⟨slot, member, below⟩
          exact ⟨slot, named slot member, (extended.mem_descendants fits slot inside).mpr below⟩
        have sameAbove : (∃ slot ∈ later.membersNamed name, other ∈ later.descendants slot) →
            ∃ slot ∈ table.membersNamed name, other ∈ table.descendants slot := by
          rintro ⟨slot, member, below⟩
          have older := SlotTable.lt_of_mem_descendants fitsLater below
          obtain ⟨parent, found⟩ := SlotTable.mem_membersNamed.mp member
          refine ⟨slot, SlotTable.mem_membersNamed.mpr ⟨parent, ?_⟩,
            (extended.mem_descendants fits slot inside).mp below⟩
          rw [← extended.key?_eq (Nat.lt_trans older inside), found]
        simp only [propext ⟨sameAbove, sameBelow⟩]
        split
        · exact FlowState.le_refl _
        · exact same.states other
      · have outside : first.lookup target (some other) = target.declared other :=
          within.lookup_outside (Nat.le_of_not_lt inside)
        have notBelow : ¬∃ slot ∈ table.membersNamed name, other ∈ table.descendants slot := by
          rintro ⟨slot, member, below⟩
          exact inside (SlotTable.mem_derived_lt below)
        rw [if_neg notBelow]
        split
        · rw [outside]
          exact FlowState.le_refl _
        · exact same.states other

end Invalidate

/-- The changed slots are those of which the stores know different states. -/
theorem mem_changedSlots (table : SlotTable) (first second : Store) (slot : SlotId) :
    slot ∈ changedSlots table first second ↔
      first.lookup table (some slot) ≠ second.lookup table (some slot) := by
  rw [changedSlots, List.mem_filter, bne_iff_ne]
  refine and_iff_right_of_imp fun differ => ?_
  rw [SortedMap.mem_keys, SortedMap.get?_unionWith]
  cases atFirst : first.facts.get? slot with
  | some state => cases second.facts.get? slot <;> rfl
  | none =>
      cases atSecond : second.facts.get? slot with
      | some state => rfl
      | none =>
          rw [lookup_some, lookup_some, atFirst, atSecond] at differ
          exact absurd rfl differ

/-- Two stores are equivalent if they are reachable alike and know the same of every slot. -/
theorem equivalent_iff (table : SlotTable) (first second : Store) :
    Store.equivalent table first second = true ↔ first.isReachable = second.isReachable ∧
      ∀ slot : Nat, first.lookup table (some slot) = second.lookup table (some slot) := by
  rw [equivalent, Bool.and_eq_true, beq_iff_eq, List.isEmpty_iff, List.eq_nil_iff_forall_not_mem]
  simp only [mem_changedSlots, ne_eq, Decidable.not_not]

end Store
end NullFlow
