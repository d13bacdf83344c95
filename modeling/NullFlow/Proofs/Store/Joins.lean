import Mathlib.Data.List.Basic
import NullFlow.Proofs.Store.Relation
/-!
Stores are ordered by the slots in which they admit null. The join of several stores admits what
one of them does, and a store that admits more weighs more.
-/

namespace NullFlow.Store

variable {table target : SlotTable} {first second third : Store} {stores others : List Store}

section Order

/-- Control may come to the store with null in the slot. -/
def Admits (table : SlotTable) (store : Store) (slot : SlotId) : Prop :=
  store.isReachable = true ∧ store.lookup table (some slot) = .maybeNull

/-- The second store admits all that the first one does. -/
structure Below (table : SlotTable) (first second : Store) : Prop where
  reachable : first.isReachable = true → second.isReachable = true
  admits : ∀ slot : Nat, first.Admits table slot → second.Admits table slot

theorem Below.refl (store : Store) : Below table store store := ⟨id, fun _ => id⟩

/-- The order of stores is transitive. -/
theorem Below.trans (early : Below table first second) (late : Below table second third) :
    Below table first third :=
  ⟨late.reachable ∘ early.reachable, fun slot admits => late.admits slot (early.admits slot admits)⟩

/-- The unreachable store is below all others. -/
theorem unreachable_below (store : Store) : Below table .unreachable store where
  reachable reachable := by cases reachable
  admits _ admits := by cases admits.1

theorem below_of_not_reachable (notReachable : first.isReachable = false) :
    Below table first second := by
  cases first with
  | unreachable => exact unreachable_below second
  | reachable facts => cases notReachable

/-- A store with the states of another one is below it. -/
theorem Matches.below {bound : Bound} (same : Matches bound table first second) :
    Below table first second where
  reachable reachable := same.reachable ▸ reachable
  admits slot admits := by
    have holds := same.states slot
    rw [admits.2] at holds
    exact ⟨same.reachable ▸ admits.1, holds.of_maybeNull⟩

theorem Matches.symm (same : Matches .exact table first second) :
    Matches .exact table second first :=
  ⟨same.reachable.symm, fun slot => (same.states slot).symm⟩

/-- Matching exactly is transitive. -/
theorem Matches.trans (early : Matches .exact table first second)
    (late : Matches .exact table second third) : Matches .exact table first third :=
  ⟨early.reachable.trans late.reachable, fun slot => (early.states slot).trans (late.states slot)⟩

theorem Below.matches_upper (below : Below table first second)
    (reachable : first.isReachable = true) : Matches .upper table first second where
  reachable := reachable.trans (below.reachable reachable).symm
  states slot := by
    cases known : first.lookup table (some slot) with
    | notNull => exact FlowState.notNull_le _
    | maybeNull =>
        rw [(below.admits slot ⟨reachable, known⟩).2]
        exact FlowState.le_refl _

/-- Stores that are below each other have the same states. -/
theorem Below.antisymm (below : Below table first second) (above : Below table second first) :
    Matches .exact table first second := by
  refine matches_of_states ?_ fun reachable slot => ?_
  · rw [Bool.eq_iff_iff]
    exact ⟨below.reachable, above.reachable⟩
  · have upper := (below.matches_upper reachable).states slot
    have lower := (above.matches_upper (below.reachable reachable)).states slot
    exact FlowState.le_antisymm upper lower

/-- The test for equivalence holds of stores that match exactly. -/
theorem equivalent_iff_matches :
    Store.equivalent table first second = true ↔ Matches .exact table first second := by
  rw [equivalent_iff]
  exact ⟨fun same => ⟨same.1, same.2⟩, fun same => ⟨same.reachable, same.states⟩⟩

/-- The bound of a store that knows slots of a table alone is a bound in a larger table too. The
bounding store may know more slots. -/
theorem Below.extend (extended : table.Extends target) (withinFirst : first.Within table)
    (below : Below table first second) : Below target first second where
  reachable := below.reachable
  admits slot admits := by
    refine ⟨below.reachable admits.1, ?_⟩
    by_cases inside : slot < table.size
    · have known := admits.2
      rw [lookup_extends extended inside] at known ⊢
      exact (below.admits slot ⟨admits.1, known⟩).2
    · have outside := Nat.le_of_not_lt inside
      have declared := admits.2
      rw [withinFirst.lookup_outside outside] at declared
      have mayBeNull : first.Admits table slot :=
        ⟨admits.1, by rw [withinFirst.lookup_outside outside, SlotTable.declared_outside outside]⟩
      have recorded := (below.admits slot mayBeNull).2
      rw [lookup_some] at recorded ⊢
      cases found : second.facts.get? slot with
      | none => exact declared
      | some state =>
          rw [found] at recorded
          exact recorded

/-- Stores ordered on a large table are so on a smaller one. -/
theorem Below.restrict (extended : table.Extends target) (withinSecond : second.Within table)
    (below : Below target first second) : Below table first second where
  reachable := below.reachable
  admits slot admits := by
    refine ⟨below.reachable admits.1, ?_⟩
    by_cases inside : slot < table.size
    · have known := admits.2
      rw [← lookup_extends extended inside] at known ⊢
      exact (below.admits slot ⟨admits.1, known⟩).2
    · have outside := Nat.le_of_not_lt inside
      rw [withinSecond.lookup_outside outside, SlotTable.declared_outside outside]

/-- Stores that know slots of a table alone compare in a larger table as they do in the table. -/
theorem Matches.extend {bound : Bound} (extended : table.Extends target)
    (withinFirst : first.Within table) (withinSecond : second.Within table)
    (same : Matches bound table first second) : Matches bound target first second := by
  refine ⟨same.reachable, fun slot => ?_⟩
  by_cases inside : slot < table.size
  · rw [lookup_extends extended inside, lookup_extends extended inside]
    exact same.states slot
  · have outside := Nat.le_of_not_lt inside
    rw [withinFirst.lookup_outside outside, withinSecond.lookup_outside outside]
    exact Bound.refl _

/-- Stores that match on a large table do so on a smaller one. -/
theorem Matches.restrict (extended : table.Extends target) (withinFirst : first.Within table)
    (withinSecond : second.Within table) (same : Matches .exact target first second) :
    Matches .exact table first second :=
  (same.below.restrict extended withinSecond).antisymm
    (same.symm.below.restrict extended withinFirst)

end Order

section JoinAll

/-- The join of all stores of a list. -/
def joinAll (table : SlotTable) (stores : List Store) : Store :=
  stores.foldl (join table) .unreachable

/-- Stores may be joined in two parts. -/
theorem joinAll_append (stores others : List Store) :
    joinAll table (stores ++ others) = others.foldl (join table) (joinAll table stores) :=
  List.foldl_append ..

theorem isReachable_foldl_join (store : Store) :
    (stores.foldl (join table) store).isReachable =
      (store.isReachable || stores.any isReachable) := by
  induction stores generalizing store with
  | nil => simp
  | cons other rest ih => simp [ih, Bool.or_assoc]

/-- A join of stores is reached if one of them is. -/
theorem isReachable_joinAll : (joinAll table stores).isReachable = stores.any isReachable :=
  isReachable_foldl_join _

theorem Within.foldl_join {store : Store} (within : store.Within table)
    (all : ∀ other ∈ stores, other.Within table) :
    (stores.foldl (Store.join table) store).Within table := by
  induction stores generalizing store with
  | nil => exact within
  | cons other rest ih =>
      obtain ⟨head, tail⟩ := List.forall_mem_cons.mp all
      exact ih (within.join head table) tail

theorem within_unreachable (table : SlotTable) : Store.unreachable.Within table :=
  fun _ _ found => by cases found

theorem within_entry (table : SlotTable) : Store.entry.Within table :=
  fun _ _ found => by cases found

/-- A join of stores of a table is one. -/
theorem within_joinAll (all : ∀ other ∈ stores, other.Within table) :
    (joinAll table stores).Within table :=
  (within_unreachable table).foldl_join all

/-- A table agrees with itself about every store. -/
theorem agrees_refl (store : Store) (table : SlotTable) : store.Agrees table table :=
  fun _ _ _ => Or.inr rfl

/-- A join of stores that agree with a table agrees with it. -/
theorem Agrees.join (agreesFirst : first.Agrees table target)
    (agreesSecond : second.Agrees table target) : (first.join table second).Agrees table target := by
  cases first with
  | unreachable => exact agreesSecond
  | reachable left =>
      cases second with
      | unreachable => exact agreesFirst
      | reachable right =>
          intro slot state found
          simp only [Store.join, Store.facts, SortedMap.get?_unionWith] at found
          cases atLeft : left.get? slot with
          | none =>
              cases atRight : right.get? slot with
              | none => simp [atLeft, atRight, SortedMap.merged] at found
              | some known =>
                  simp only [atLeft, atRight, SortedMap.merged, Option.some.injEq] at found
                  refine (agreesSecond slot known atRight).imp_left fun mayBeNull => ?_
                  rw [← found, mayBeNull]
                  rfl
          | some known =>
              refine (agreesFirst slot known atLeft).imp_left fun mayBeNull => ?_
              cases atRight : right.get? slot <;>
                simp only [atLeft, atRight, SortedMap.merged, Option.some.injEq] at found <;>
                rw [← found, mayBeNull] <;> rfl

/-- A join admits what one of the two stores does. -/
theorem admits_join (agreesFirst : first.Agrees table target)
    (agreesSecond : second.Agrees table target) (slot : SlotId) :
    (first.join table second).Admits target slot ↔
      first.Admits target slot ∨ second.Admits target slot := by
  cases reachableFirst : first.isReachable with
  | false =>
      cases first with
      | reachable facts => cases reachableFirst
      | unreachable => simp [Admits, isReachable]
  | true =>
      cases reachableSecond : second.isReachable with
      | false =>
          cases second with
          | reachable facts => cases reachableSecond
          | unreachable => simp [Admits, isReachable]
      | true =>
          rw [Admits, lookup_join agreesFirst agreesSecond reachableFirst reachableSecond]
          simp only [isReachable_join, Admits, reachableFirst, reachableSecond, Bool.or_self,
            true_and]
          cases first.lookup target (some slot) <;> simp [FlowState.join]

theorem admits_foldl_join {store : Store} (agrees : store.Agrees table target)
    (all : ∀ other ∈ stores, other.Agrees table target) (slot : SlotId) :
    (stores.foldl (join table) store).Admits target slot ↔
      store.Admits target slot ∨ ∃ other ∈ stores, other.Admits target slot := by
  induction stores generalizing store with
  | nil => simp
  | cons other rest ih =>
      obtain ⟨head, tail⟩ := List.forall_mem_cons.mp all
      rw [List.foldl_cons, ih (agrees.join head) tail, admits_join agrees head]
      simp only [List.exists_mem_cons_iff]
      exact or_assoc

/-- A join lets a slot be null if one of its stores does. -/
theorem admits_joinAll (all : ∀ other ∈ stores, other.Agrees table target) (slot : SlotId) :
    (joinAll table stores).Admits target slot ↔ ∃ store ∈ stores, store.Admits target slot := by
  have agrees : Store.unreachable.Agrees table target := fun _ _ found => by cases found
  have unreached : ¬Store.unreachable.Admits target slot := fun admits => by cases admits.1
  rw [joinAll, admits_foldl_join agrees all]
  simp [unreached]

/-- Every one of the stores is below the join. -/
theorem below_joinAll (all : ∀ other ∈ stores, other.Agrees table target) {store : Store}
    (member : store ∈ stores) : Below target store (joinAll table stores) where
  reachable reachable := by
    rw [isReachable_joinAll, List.any_eq_true]
    exact ⟨store, member, reachable⟩
  admits slot admits := (admits_joinAll all slot).mpr ⟨store, member, admits⟩

/-- The join is below every store that is above all of the stores. -/
theorem joinAll_below (all : ∀ other ∈ stores, other.Agrees table target)
    (above : ∀ store ∈ stores, Below target store second) :
    Below target (joinAll table stores) second where
  reachable reachable := by
    rw [isReachable_joinAll, List.any_eq_true] at reachable
    obtain ⟨store, member, reachable⟩ := reachable
    exact (above store member).reachable reachable
  admits slot admits := by
    obtain ⟨store, member, admits⟩ := (admits_joinAll all slot).mp admits
    exact (above store member).admits slot admits

/-- Joins are in order if every reachable store of the first is below one of the second. -/
theorem joinAll_mono {larger : SlotTable} (all : ∀ other ∈ stores, other.Agrees table target)
    (allOthers : ∀ other ∈ others, other.Agrees larger target)
    (above : ∀ store ∈ stores, store.isReachable = true →
      ∃ other ∈ others, Below target store other) :
    Below target (joinAll table stores) (joinAll larger others) := by
  refine joinAll_below all fun store member => ?_
  cases reachable : store.isReachable with
  | false => exact below_of_not_reachable reachable
  | true =>
      obtain ⟨other, memberOther, below⟩ := above store member reachable
      exact below.trans (below_joinAll allOthers memberOther)

end JoinAll

section Weight

/-- How much a store leaves open. -/
def weight (table : SlotTable) (store : Store) : Nat :=
  if store.isReachable then
    1 + ((List.range table.size).filter fun slot =>
      store.lookup table (some slot) = .maybeNull).length
  else 0

/-- No store weighs more than the slots of its table and one. -/
theorem weight_le (table : SlotTable) (store : Store) : store.weight table ≤ table.size + 1 := by
  have fewer := List.length_filter_le
    (fun slot => decide (store.lookup table (some slot) = .maybeNull)) (List.range table.size)
  rw [List.length_range] at fewer
  unfold weight
  split <;> omega

/-- Of ordered stores the larger lets more slots be null. -/
theorem Below.filter_sublist (below : Below table first second)
    (reachable : first.isReachable = true) :
    ((List.range table.size).filter fun slot => first.lookup table (some slot) = .maybeNull).Sublist
      ((List.range table.size).filter fun slot =>
        second.lookup table (some slot) = .maybeNull) := by
  refine List.monotone_filter_right _ fun slot isNull => ?_
  rw [decide_eq_true_eq] at isNull ⊢
  exact (below.admits slot ⟨reachable, isNull⟩).2

/-- Of ordered stores the larger weighs more. -/
theorem Below.weight_le (below : Below table first second) :
    first.weight table ≤ second.weight table := by
  cases reachable : first.isReachable with
  | false => simp [weight, reachable]
  | true =>
      have fewer := (below.filter_sublist reachable).length_le
      simp only [weight, reachable, below.reachable reachable, if_true]
      omega

/-- A store that weighs no more than one below it has the same states. -/
theorem Below.same_of_weight (below : Below table first second)
    (withinFirst : first.Within table) (heavy : second.weight table ≤ first.weight table) :
    Matches .exact table first second := by
  refine below.antisymm ⟨fun reachable => ?_, fun slot admits => ?_⟩
  · by_contra notReachable
    simp only [weight, reachable, notReachable, if_true] at heavy
    simp at heavy
  · have reachable : first.isReachable = true := by
      by_contra notReachable
      simp only [weight, admits.1, notReachable, if_true] at heavy
      simp at heavy
    refine ⟨reachable, ?_⟩
    simp only [weight, reachable, admits.1, if_true] at heavy
    have same := (below.filter_sublist reachable).eq_of_length_le (by omega)
    by_cases inside : slot < table.size
    · have member : slot ∈ (List.range table.size).filter fun slot =>
          second.lookup table (some slot) = .maybeNull := by
        simpa [inside] using admits.2
      rw [← same, List.mem_filter, decide_eq_true_eq] at member
      exact member.2
    · rw [withinFirst.lookup_outside (Nat.le_of_not_lt inside),
        SlotTable.declared_outside (Nat.le_of_not_lt inside)]

end Weight

section Widen

/-- Two stores differ only in slots that one of them records. -/
theorem changedSlots_inside (withinFirst : first.Within table) (withinSecond : second.Within table) :
    ∀ slot ∈ changedSlots table first second, (slot : Nat) < table.size := by
  intro slot member
  by_contra outside
  rw [mem_changedSlots, withinFirst.lookup_outside (Nat.le_of_not_lt outside),
    withinSecond.lookup_outside (Nat.le_of_not_lt outside)] at member
  exact member rfl

/-- Widening records slots of the table alone, if it is told to. -/
theorem Within.widen {store : Store} (within : store.Within table) {slots : List SlotId}
    (inside : ∀ slot ∈ slots, (slot : Nat) < table.size) : (store.widen slots).Within table := by
  induction slots generalizing store with
  | nil => exact within
  | cons slot rest ih =>
      obtain ⟨head, tail⟩ := List.forall_mem_cons.mp inside
      refine ih (within.assign (fun other same => ?_) .maybeNull) tail
      exact Option.some.inj same ▸ head

end Widen

end NullFlow.Store
