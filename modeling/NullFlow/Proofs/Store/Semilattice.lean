import NullFlow.Proofs.Store.Entries
import NullFlow.Proofs.Store.Joins
/-!
The join of stores. A join has an entry for every slot of which one of the stores has one, and the entry
covers the states that both stores know of the slot. So the laws of the join are those of states, and
they hold as equations of stores, although an entry may say no more than what is declared.
-/

namespace NullFlow

namespace FlowState

/-- The grouping of stores does not matter to their join. -/
theorem join_assoc (first second third : FlowState) :
    (first.join second).join third = first.join (second.join third) := by
  cases first <;> rfl

theorem join_self (state : FlowState) : state.join state = state := by
  cases state <;> rfl

theorem le_trans {first second third : FlowState} (early : first ≤ second) (late : second ≤ third) :
    first ≤ third := by
  cases first with
  | notNull => exact notNull_le third
  | maybeNull =>
      obtain rfl : FlowState.maybeNull = second := early
      exact late

theorem le_join_left (first second : FlowState) : first ≤ first.join second := by
  cases first
  · exact notNull_le _
  · exact le_refl _

/-- The join is the least of the states above both. -/
theorem join_le {first second upper : FlowState} (left : first ≤ upper) (right : second ≤ upper) :
    first.join second ≤ upper := by
  cases first
  · exact right
  · exact left

end FlowState

namespace Store

variable {table : SlotTable} {first second third upper : Store}

section Laws

/-- Stores that are reachable alike and have the same entries are equal. -/
theorem eq_of_explicit (reachable : first.isReachable = second.isReachable)
    (same : ∀ slot, first.explicit (some slot) = second.explicit (some slot)) : first = second := by
  cases first with
  | unreachable =>
      cases second with
      | unreachable => rfl
      | reachable facts => cases reachable
  | reachable left =>
      cases second with
      | unreachable => cases reachable
      | reachable right => exact congrArg Store.reachable (SortedMap.eq_of_get? same)

/-- A join has an entry for the slots of which one of the stores has one. The entry covers what the
stores know of the slot, whether they have an entry or not. -/
theorem explicit_join_eq (reachableFirst : first.isReachable = true)
    (reachableSecond : second.isReachable = true) (slot : SlotId) :
    (first.join table second).explicit (some slot) =
      if (first.explicit (some slot)).isSome || (second.explicit (some slot)).isSome then
        some ((first.lookup table (some slot)).join (second.lookup table (some slot)))
      else none := by
  cases first with
  | unreachable => cases reachableFirst
  | reachable left =>
      cases second with
      | unreachable => cases reachableSecond
      | reachable right =>
          refine (SortedMap.get?_unionWith _ _ _ left right slot).trans ?_
          rw [lookup_some, lookup_some]
          change SortedMap.merged _ _ _ _ _ =
            if (left.get? slot).isSome || (right.get? slot).isSome then
              some (((left.get? slot).getD _).join ((right.get? slot).getD _)) else none
          cases left.get? slot with
          | none =>
              cases right.get? slot with
              | none => rfl
              | some state => exact congrArg some (FlowState.join_comm ..)
          | some known => cases right.get? slot <;> rfl

/-- A join has a record wherever one of its stores has. -/
theorem isSome_explicit_join (slot : SlotId) :
    ((first.join table second).explicit (some slot)).isSome =
      ((first.explicit (some slot)).isSome || (second.explicit (some slot)).isSome) := by
  cases first with
  | unreachable => rfl
  | reachable left =>
      cases second with
      | unreachable => exact (Bool.or_false _).symm
      | reachable right =>
          rw [explicit_join_eq rfl rfl]
          cases isEntry : ((reachable left).explicit (some slot)).isSome ||
            ((reachable right).explicit (some slot)).isSome <;> rfl

/-- The order of the stores does not matter to their join. -/
theorem join_comm (table : SlotTable) (first second : Store) :
    first.join table second = second.join table first := by
  cases first with
  | unreachable => rw [join_unreachable, unreachable_join]
  | reachable left =>
      cases second with
      | unreachable => rfl
      | reachable right =>
          refine eq_of_explicit rfl fun slot => ?_
          rw [explicit_join_eq rfl rfl, explicit_join_eq rfl rfl, Bool.or_comm, FlowState.join_comm]

theorem join_self (table : SlotTable) (store : Store) : store.join table store = store := by
  cases store with
  | unreachable => rfl
  | reachable facts =>
      refine eq_of_explicit rfl fun slot => ?_
      rw [explicit_join_eq rfl rfl, Bool.or_self, FlowState.join_self, lookup_eq_explicit]
      cases (reachable facts).explicit (some slot) <;> rfl

theorem join_assoc (table : SlotTable) (first second third : Store) :
    (first.join table second).join table third = first.join table (second.join table third) := by
  cases first with
  | unreachable => rfl
  | reachable left =>
      cases second with
      | unreachable => rfl
      | reachable middle =>
          cases third with
          | unreachable => rfl
          | reachable right =>
              refine eq_of_explicit rfl fun slot => ?_
              refine (explicit_join_eq rfl rfl slot).trans
                (.trans ?_ (explicit_join_eq rfl rfl slot).symm)
              rw [isSome_explicit_join, isSome_explicit_join, Bool.or_assoc,
                lookup_join (agrees_refl _ _) (agrees_refl _ _) rfl rfl,
                lookup_join (agrees_refl _ _) (agrees_refl _ _) rfl rfl, FlowState.join_assoc]

end Laws

section Order

/-- Stores that control does not reach come first. Two that it reaches compare slot by slot. -/
def Precedes (table : SlotTable) (first second : Store) : Prop :=
  first.isReachable = true → second.isReachable = true ∧
    ∀ slot : SlotId, first.lookup table (some slot) ≤ second.lookup table (some slot)

theorem Precedes.refl (store : Store) : Precedes table store store :=
  fun reachable => ⟨reachable, fun _ => FlowState.le_refl _⟩

/-- The order of stores is transitive. -/
theorem Precedes.trans (early : Precedes table first second) (late : Precedes table second third) :
    Precedes table first third := fun reachable =>
  have ofSecond := (early reachable).1
  ⟨(late ofSecond).1, fun slot =>
    FlowState.le_trans ((early reachable).2 slot) ((late ofSecond).2 slot)⟩

/-- Stores that precede each other are equivalent. -/
theorem equivalent_iff_precedes :
    Store.equivalent table first second = true ↔
      Precedes table first second ∧ Precedes table second first := by
  rw [equivalent_iff]
  constructor
  · rintro ⟨reachable, same⟩
    refine ⟨fun ofFirst => ⟨reachable ▸ ofFirst, fun slot => ?_⟩,
      fun ofSecond => ⟨reachable.trans ofSecond, fun slot => ?_⟩⟩
    · exact same slot ▸ FlowState.le_refl _
    · exact same slot ▸ FlowState.le_refl _
  · rintro ⟨below, above⟩
    have reachable : first.isReachable = second.isReachable :=
      Bool.eq_iff_iff.mpr ⟨fun reachable => (below reachable).1, fun reachable => (above reachable).1⟩
    have matching : Matches .exact table first second :=
      matches_of_states reachable fun ofFirst slot =>
        FlowState.le_antisymm ((below ofFirst).2 slot) ((above (reachable ▸ ofFirst)).2 slot)
    exact ⟨reachable, matching.states⟩

/-- The first store precedes the join. -/
theorem precedes_join_left (table : SlotTable) (first second : Store) :
    Precedes table first (first.join table second) := by
  intro ofFirst
  refine ⟨by rw [isReachable_join, ofFirst, Bool.true_or], fun slot => ?_⟩
  cases second with
  | unreachable =>
      rw [join_unreachable]
      exact FlowState.le_refl _
  | reachable facts =>
      rw [lookup_join (agrees_refl _ _) (agrees_refl _ _) ofFirst rfl]
      exact FlowState.le_join_left _ _

/-- The second store precedes the join. -/
theorem precedes_join_right (table : SlotTable) (first second : Store) :
    Precedes table second (first.join table second) :=
  join_comm table second first ▸ precedes_join_left table second first

/-- The join is the first store that both stores precede. -/
theorem join_precedes (left : Precedes table first upper) (right : Precedes table second upper) :
    Precedes table (first.join table second) upper := by
  cases first with
  | unreachable => exact right
  | reachable facts =>
      cases second with
      | unreachable => exact left
      | reachable others =>
          intro _
          refine ⟨(left rfl).1, fun slot => ?_⟩
          rw [lookup_join (agrees_refl _ _) (agrees_refl _ _) rfl rfl]
          exact FlowState.join_le ((left rfl).2 slot) ((right rfl).2 slot)

/-- Joins of larger stores are larger. -/
theorem Precedes.join {other later : Store} (left : Precedes table first other)
    (right : Precedes table second later) :
    Precedes table (first.join table second) (other.join table later) :=
  join_precedes (left.trans (precedes_join_left table other later))
    (right.trans (precedes_join_right table other later))

/-- Equivalent stores have equivalent joins. -/
theorem equivalent_join {other later : Store} (left : Store.equivalent table first other = true)
    (right : Store.equivalent table second later = true) :
    Store.equivalent table (first.join table second) (other.join table later) = true := by
  rw [equivalent_iff_precedes] at left right ⊢
  exact ⟨left.1.join right.1, left.2.join right.2⟩

theorem equivalence (table : SlotTable) :
    Equivalence fun first second => Store.equivalent table first second = true := by
  simp only [equivalent_iff_precedes]
  exact ⟨fun store => ⟨.refl store, .refl store⟩, fun same => ⟨same.2, same.1⟩,
    fun early late => ⟨early.1.trans late.1, late.2.trans early.2⟩⟩

end Order

/-- Changed slots come in the order of their creation. -/
theorem changedSlots_ascending (table : SlotTable) (first second : Store) :
    (changedSlots table first second).Pairwise (· < ·) := by
  refine List.Pairwise.filter _ (List.pairwise_map.mpr (List.Pairwise.imp ?_ (SortedMap.ascending _)))
  exact fun below => Nat.compare_eq_lt.mp below

end Store

/-- A flag that tells whether control comes to a point, and entries. Nothing in it keeps entries away
from a point that control does not reach. -/
structure Snapshot where
  reachable : Bool
  facts : Facts

namespace Snapshot

def lookup (table : SlotTable) (snapshot : Snapshot) (slot : SlotId) : FlowState :=
  (snapshot.facts.get? slot).getD (table.declared slot)

/-- Nothing is recorded where control does not come. -/
def assign (snapshot : Snapshot) (slot? : Option SlotId) (state : FlowState) : Snapshot :=
  match slot?, snapshot.reachable with
  | some slot, true => ⟨true, snapshot.facts.insert slot state⟩
  | _, _ => snapshot

def forget (snapshot : Snapshot) (slots : List SlotId) : Snapshot :=
  ⟨snapshot.reachable, snapshot.facts.keep fun slot => !slots.contains slot⟩

def widen (snapshot : Snapshot) (slots : List SlotId) : Snapshot :=
  if snapshot.reachable then
    ⟨true, slots.foldl (fun facts slot => facts.insert slot .maybeNull) snapshot.facts⟩
  else snapshot

/-- The entries of the join cover what both snapshots know of the slots that one of them records. -/
def join (table : SlotTable) (first second : Snapshot) : Snapshot :=
  if !first.reachable then second
  else if !second.reachable then first
  else
    let known slot := (first.lookup table slot).join (second.lookup table slot)
    ⟨true, .unionWith (fun slot _ => known slot) (fun slot _ => known slot)
      (fun slot _ _ => known slot) first.facts second.facts⟩

/-- The snapshots that the operations make. -/
inductive Built (table : SlotTable) : Snapshot → Prop where
  | entry : Built table ⟨true, .empty⟩
  | unreachable : Built table ⟨false, .empty⟩
  | assign {snapshot : Snapshot} (slot? : Option SlotId) (state : FlowState) :
      Built table snapshot → Built table (snapshot.assign slot? state)
  | forget {snapshot : Snapshot} (slots : List SlotId) :
      Built table snapshot → Built table (snapshot.forget slots)
  | widen {snapshot : Snapshot} (slots : List SlotId) :
      Built table snapshot → Built table (snapshot.widen slots)
  | join {first second : Snapshot} :
      Built table first → Built table second → Built table (first.join table second)

end Snapshot

namespace Store

/-- What a store consists of. -/
def snapshot (store : Store) : Snapshot := ⟨store.isReachable, store.facts⟩

/-- Assignments of stores and of snapshots agree. -/
theorem snapshot_assign (store : Store) (slot? : Option SlotId) (state : FlowState) :
    (store.assign slot? state).snapshot = store.snapshot.assign slot? state := by
  cases store <;> cases slot? <;> rfl

/-- Forgetting in stores and in snapshots agrees. -/
theorem snapshot_forget (store : Store) (slots : List SlotId) :
    (store.forget slots).snapshot = store.snapshot.forget slots := by
  cases store <;> rfl

/-- Widening of stores and of snapshots agrees. -/
theorem snapshot_widen (store : Store) (slots : List SlotId) :
    (store.widen slots).snapshot = store.snapshot.widen slots := by
  induction slots generalizing store with
  | nil => cases store <;> rfl
  | cons slot rest ih =>
      refine (ih _).trans ?_
      cases store <;> rfl

/-- Joins of stores and of snapshots agree. -/
theorem snapshot_join (table : SlotTable) (first second : Store) :
    (first.join table second).snapshot = first.snapshot.join table second.snapshot := by
  cases first with
  | unreachable => rfl
  | reachable left =>
      cases second with
      | unreachable => rfl
      | reachable right =>
          refine congrArg (Snapshot.mk true) (SortedMap.eq_of_get? fun slot => ?_)
          rw [SortedMap.get?_unionWith]
          refine (explicit_join_eq rfl rfl slot).trans ?_
          change (if (left.get? slot).isSome || (right.get? slot).isSome then some _ else none) =
            SortedMap.merged _ _ _ (left.get? slot) (right.get? slot)
          cases left.get? slot <;> cases right.get? slot <;> rfl

end Store

/-- Every snapshot that the operations make is what a store consists of. -/
theorem Snapshot.Built.exists_store {table : SlotTable} {snapshot : Snapshot}
    (built : snapshot.Built table) : ∃ store : Store, store.snapshot = snapshot := by
  induction built with
  | entry => exact ⟨.entry, rfl⟩
  | unreachable => exact ⟨.unreachable, rfl⟩
  | assign slot? state _ ih =>
      obtain ⟨store, rfl⟩ := ih
      exact ⟨_, store.snapshot_assign slot? state⟩
  | forget slots _ ih =>
      obtain ⟨store, rfl⟩ := ih
      exact ⟨_, store.snapshot_forget slots⟩
  | widen slots _ ih =>
      obtain ⟨store, rfl⟩ := ih
      exact ⟨_, store.snapshot_widen slots⟩
  | join _ _ ihFirst ihSecond =>
      obtain ⟨first, rfl⟩ := ihFirst
      obtain ⟨second, rfl⟩ := ihSecond
      exact ⟨_, Store.snapshot_join table first second⟩

/-- Nothing is recorded of a point that control does not reach. -/
theorem Snapshot.Built.facts_eq_empty {table : SlotTable} {snapshot : Snapshot}
    (built : snapshot.Built table) (unreachable : snapshot.reachable = false) :
    snapshot.facts = .empty := by
  obtain ⟨store, rfl⟩ := built.exists_store
  cases store with
  | unreachable => rfl
  | reachable facts => cases unreachable

/-- The snapshots that are built are stores, which have no entries where control does not come. Stores
that are reachable alike and know the same of every slot are equivalent. Under the join they are a
semilattice, in which the unreachable store is the unit and the join is the least upper bound. The
changed slots are those of which two stores know different states, each once and in ascending order. -/
theorem stores_form_semilattice (table : SlotTable) :
    (∀ snapshot : Snapshot, snapshot.Built table → (∃ store : Store, store.snapshot = snapshot) ∧
      (snapshot.reachable = false → snapshot.facts = .empty)) ∧
    (∀ first second, Store.equivalent table first second = true ↔
      first.isReachable = second.isReachable ∧
        ∀ slot : SlotId, first.lookup table (some slot) = second.lookup table (some slot)) ∧
    (Equivalence fun first second => Store.equivalent table first second = true) ∧
    (∀ first second other later, Store.equivalent table first other = true →
      Store.equivalent table second later = true →
        Store.equivalent table (first.join table second) (other.join table later) = true) ∧
    (∀ first second third : Store,
      (first.join table second).join table third = first.join table (second.join table third)) ∧
    (∀ first second : Store, first.join table second = second.join table first) ∧
    (∀ store : Store, store.join table store = store ∧
      Store.unreachable.join table store = store ∧ store.join table .unreachable = store) ∧
    (∀ first second, Store.equivalent table first second = true ↔
      Store.Precedes table first second ∧ Store.Precedes table second first) ∧
    (∀ first second : Store, Store.Precedes table first (first.join table second) ∧
      Store.Precedes table second (first.join table second) ∧
      ∀ upper, Store.Precedes table first upper → Store.Precedes table second upper →
        Store.Precedes table (first.join table second) upper) ∧
    (∀ first second, (Store.changedSlots table first second).Pairwise (· < ·) ∧
      ∀ slot, slot ∈ Store.changedSlots table first second ↔
        first.lookup table (some slot) ≠ second.lookup table (some slot)) := by
  refine ⟨fun snapshot built => ⟨built.exists_store, built.facts_eq_empty⟩, ?equivalent,
    Store.equivalence table, ?respects, ?assoc, ?comm, ?unit, ?order, ?bound, ?changed⟩
  case equivalent => exact Store.equivalent_iff table
  case respects => exact fun _ _ _ _ left right => Store.equivalent_join left right
  case assoc => exact Store.join_assoc table
  case comm => exact Store.join_comm table
  case unit =>
    exact fun store => ⟨store.join_self table, Store.unreachable_join store,
      Store.join_unreachable store⟩
  case order => exact fun _ _ => Store.equivalent_iff_precedes
  case bound =>
    exact fun first second => ⟨Store.precedes_join_left table first second,
      Store.precedes_join_right table first second, fun _ => Store.join_precedes⟩
  case changed =>
    exact fun first second => ⟨Store.changedSlots_ascending table first second,
      Store.mem_changedSlots table first second⟩

end NullFlow
