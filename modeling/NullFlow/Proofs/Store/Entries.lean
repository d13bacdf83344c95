import NullFlow.Proofs.Store.Relation
/-!
The entries of stores after each of their operations.
-/

namespace NullFlow.Store

variable {table : SlotTable} {store first second : Store}

/-- A slot without a record is in its declared state. -/
theorem lookup_eq_explicit (store : Store) (table : SlotTable) (slot : SlotId) :
    store.lookup table (some slot) = (store.explicit (some slot)).getD (table.declared slot) := rfl

/-- An assignment to a live store records the state of one slot. -/
theorem explicit_assign (reachable : store.isReachable = true) (slot other : SlotId)
    (state : FlowState) :
    (store.assign (some slot) state).explicit (some other) =
      if other = slot then some state else store.explicit (some other) := by
  cases store with
  | unreachable => cases reachable
  | reachable facts => exact SortedMap.get?_insert facts slot other state

/-- What is forgotten has no record. -/
theorem explicit_forget (store : Store) (slots : List SlotId) (other : SlotId) :
    (store.forget slots).explicit (some other) =
      if other ∈ slots then none else store.explicit (some other) := by
  cases store with
  | unreachable => simp [forget, explicit, facts]
  | reachable facts =>
      have kept := SortedMap.get?_keep facts (fun slot => !slots.contains slot) other
      refine Eq.trans kept ?_
      by_cases dropped : other ∈ slots
      · simp [dropped]
      · simp [dropped, explicit, Store.facts]

/-- An entry that both stores have stays in their join, and one that neither has stays out. -/
theorem explicit_join {slot : SlotId} {entry : Option FlowState}
    (ofFirst : first.isReachable = true → first.explicit (some slot) = entry)
    (ofSecond : second.isReachable = true → second.explicit (some slot) = entry)
    (reachable : (first.join table second).isReachable = true) :
    (first.join table second).explicit (some slot) = entry := by
  cases first with
  | unreachable => exact ofSecond reachable
  | reachable left =>
      cases second with
      | unreachable => exact ofFirst rfl
      | reachable right =>
          have atLeft : left.get? slot = entry := ofFirst rfl
          have atRight : right.get? slot = entry := ofSecond rfl
          refine (SortedMap.get?_unionWith _ _ _ left right slot).trans ?_
          rw [atLeft, atRight]
          cases entry with
          | none => rfl
          | some state => cases state <;> rfl

/-- Slots that are invalidated in the order of their creation may be null afterwards. -/
theorem explicit_invalidateAll (rooted : table.Rooted) (reachable : store.isReachable = true)
    {slots : List SlotId} (ascending : slots.Pairwise (· < ·)) {slot : SlotId}
    (lost : slot ∈ slots ∨
      store.explicit (some slot) = some .maybeNull ∧ ∀ later ∈ slots, slot < later) :
    (invalidateAll table slots store).explicit (some slot) = some .maybeNull := by
  induction slots generalizing store with
  | nil =>
      rcases lost with member | ⟨recorded, _⟩
      · cases member
      · exact recorded
  | cons first rest ih =>
      obtain ⟨above, ascendingRest⟩ := List.pairwise_cons.mp ascending
      rw [invalidateAll, List.foldl_cons]
      refine ih (by simpa using reachable) ascendingRest ?_
      rw [explicit_assign (by simpa using reachable), explicit_forget]
      rcases lost with member | ⟨recorded, older⟩
      · rcases List.mem_cons.mp member with rfl | inRest
        · exact .inr ⟨if_pos rfl, above⟩
        · exact .inl inRest
      · obtain ⟨olderFirst, olderRest⟩ := List.forall_mem_cons.mp older
        have notBelow : slot ∉ table.descendants first := fun below =>
          Nat.lt_asymm olderFirst (rooted.lt_of_mem_descendants below)
        rw [if_neg (Nat.ne_of_lt olderFirst), if_neg notBelow]
        exact .inr ⟨recorded, olderRest⟩

/-- After a name is invalidated, all members of the name may be null. -/
theorem explicit_invalidate (rooted : table.Rooted) (reachable : store.isReachable = true)
    {name : String} {slot : SlotId} (named : slot ∈ table.membersNamed name) :
    (store.invalidate table name).explicit (some slot) = some .maybeNull := by
  rw [invalidate_eq]
  exact explicit_invalidateAll rooted reachable (membersNamed_ascending table name) (.inl named)

/-- Invalidation touches nothing but the members of the name and what is derived from them. -/
theorem explicit_invalidate_other {kept : SlotId → Prop}
    (closed : ∀ {slot parent}, kept slot → table.parent? slot = some parent → kept parent)
    {name : String} (spared : ∀ slot ∈ table.membersNamed name, ¬kept slot)
    (reachable : store.isReachable = true) {slot : SlotId} (inside : kept slot) :
    (store.invalidate table name).explicit (some slot) = store.explicit (some slot) := by
  rw [invalidate_eq]
  generalize table.membersNamed name = slots at spared
  induction slots generalizing store with
  | nil => rfl
  | cons first rest ih =>
      obtain ⟨outside, spared⟩ := List.forall_mem_cons.mp spared
      have differ : slot ≠ first := fun same => outside (same ▸ inside)
      rw [invalidateAll, List.foldl_cons]
      refine (ih (by simpa using reachable) spared).trans ?_
      rw [explicit_assign (by simpa using reachable), if_neg differ, explicit_forget,
        if_neg (SlotTable.not_mem_descendants closed outside inside)]

end NullFlow.Store
