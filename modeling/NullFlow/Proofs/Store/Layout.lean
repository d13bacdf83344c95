import NullFlow.Store.SlotTable
/-!
Layouts of slot tables. In a method whose places have no inner positions, every slot is a variable,
`this` or a member, and its declared state is known from its key. Such tables only grow.
-/

namespace NullFlow

/-- What the declarations of a method say of the places that it uses. -/
structure Layout where
  localState : LocalId → FlowState
  /-- The state of all members of a name. -/
  memberState : String → FlowState

namespace Layout

/-- The declared state of a slot with the key. There are no slots of inner positions. -/
def stateOf (layout : Layout) : SlotKey → Option FlowState
  | .localVar id => some (layout.localState id)
  | .this => some .notNull
  | .member _ name => some (layout.memberState name)
  | .element _ => none
  | .typeArgument .. => none

/-- The slots of a table have the states of the layout, and every slot is younger than the slot
that it is derived from. -/
structure Fits (layout : Layout) (table : SlotTable) : Prop where
  declared : ∀ (slot : Nat) info, table.slots[slot]? = some info →
    layout.stateOf info.key = some info.declared
  older : ∀ (slot : Nat) info (parent : Nat), table.slots[slot]? = some info →
    info.key.parent? = some parent → parent < slot
  distinct : ∀ (slot other : Nat) info info', table.slots[slot]? = some info →
    table.slots[other]? = some info' → info.key = info'.key → slot = other

end Layout

namespace SlotTable

/-- All slots of the first table are slots of the second. -/
def Extends (before after : SlotTable) : Prop :=
  ∀ (slot : Nat) info, before.slots[slot]? = some info → after.slots[slot]? = some info

namespace Extends

variable {first second third : SlotTable}

theorem refl (table : SlotTable) : Extends table table := fun _ _ found => found

/-- A table that extends in two steps extends. -/
theorem trans (early : Extends first second) (late : Extends second third) :
    Extends first third := fun slot info found => late slot info (early slot info found)

theorem size_le (extended : Extends first second) : first.size ≤ second.size := by
  by_cases nonempty : 0 < first.size
  · have last := Array.getElem?_eq_getElem (show first.size - 1 < first.slots.size by
      unfold size at *
      omega)
    have inside := (Array.getElem?_eq_some_iff.mp (extended _ _ last)).1
    unfold size at *
    omega
  · omega

/-- A slot keeps its key in every extension. -/
theorem key? (extended : Extends first second) {slot : Nat} {key : SlotKey}
    (found : first.key? slot = some key) : second.key? slot = some key := by
  obtain ⟨info, atSlot, rfl⟩ := Option.map_eq_some_iff.mp found
  exact Option.map_eq_some_iff.mpr ⟨info, extended slot info atSlot, rfl⟩

theorem key?_eq (extended : Extends first second) {slot : Nat} (inside : slot < first.size) :
    second.key? slot = first.key? slot := by
  have found := Array.getElem?_eq_getElem inside
  simp only [SlotTable.key?, found, extended slot _ found]

/-- A slot keeps its declared state in every extension. -/
theorem declared (extended : Extends first second) {slot : Nat} (inside : slot < first.size) :
    second.declared slot = first.declared slot := by
  have found := Array.getElem?_eq_getElem inside
  simp only [SlotTable.declared, found, extended slot _ found]

end Extends

variable {table : SlotTable} {layout : Layout}

theorem declared_outside {slot : Nat} (outside : table.size ≤ slot) :
    table.declared slot = .maybeNull := by
  rw [declared, Array.getElem?_eq_none outside]

theorem key?_eq_some {slot : Nat} {key : SlotKey} :
    table.key? slot = some key ↔ ∃ info, table.slots[slot]? = some info ∧ info.key = key :=
  Option.map_eq_some_iff

/-- Only slots of the table have keys. -/
theorem lt_size_of_key? {slot : Nat} {key : SlotKey} (found : table.key? slot = some key) :
    slot < table.size := by
  obtain ⟨info, atSlot, same⟩ := key?_eq_some.mp found
  exact (Array.getElem?_eq_some_iff.mp atSlot).1

/-- The slot of a key is the only one with the key. -/
theorem get?_eq_some (fits : layout.Fits table) {key : SlotKey} {slot : Nat} :
    table.get? key = some slot ↔ table.key? slot = some key := by
  rw [get?, Array.findIdx?_eq_some_iff_getElem, key?_eq_some]
  constructor
  · rintro ⟨inside, same, first⟩
    exact ⟨table.slots[slot], Array.getElem?_eq_getElem inside, by simpa using same⟩
  · rintro ⟨info, found, rfl⟩
    obtain ⟨inside, atSlot⟩ := Array.getElem?_eq_some_iff.mp found
    refine ⟨inside, by simp [atSlot], fun earlier before same => ?_⟩
    have atEarlier := Array.getElem?_eq_getElem (Nat.lt_trans before inside)
    have equal := fits.distinct earlier slot _ info atEarlier found (by simpa using same)
    omega

/-- A key that is not found is the key of no slot. -/
theorem get?_eq_none {key : SlotKey} (missing : table.get? key = none) {slot : Nat}
    {info : SlotInfo} (found : table.slots[slot]? = some info) : info.key ≠ key := by
  rw [get?, Array.findIdx?_eq_none_iff] at missing
  simpa using missing info (Array.mem_of_getElem? found)

/-- A slot of a new key goes to the end of the table. -/
theorem fits_push (fits : layout.Fits table) {key : SlotKey} {declared : FlowState}
    (isNew : table.get? key = none) (known : layout.stateOf key = some declared)
    (older : ∀ parent : Nat, key.parent? = some parent → parent < table.size) :
    layout.Fits ⟨table.slots.push ⟨key, declared⟩⟩ := by
  have lookup : ∀ (slot : Nat) info, (table.slots.push ⟨key, declared⟩)[slot]? = some info →
      table.slots[slot]? = some info ∨ slot = table.size ∧ info = ⟨key, declared⟩ := by
    intro slot info found
    rw [Array.getElem?_push] at found
    split at found
    · rename_i atEnd
      exact Or.inr ⟨atEnd, (Option.some.inj found).symm⟩
    · exact Or.inl found
  refine ⟨fun slot info found => ?_, fun slot info parent found isParent => ?_,
    fun slot other info info' found found' same => ?_⟩
  · rcases lookup slot info found with old | ⟨rfl, rfl⟩
    · exact fits.declared slot info old
    · exact known
  · rcases lookup slot info found with old | ⟨rfl, rfl⟩
    · exact fits.older slot info parent old isParent
    · exact older parent isParent
  · rcases lookup slot info found with old | ⟨rfl, rfl⟩
    · rcases lookup other info' found' with old' | ⟨rfl, rfl⟩
      · exact fits.distinct slot other info info' old old' same
      · exact absurd same (get?_eq_none isNew old)
    · rcases lookup other info' found' with old' | ⟨rfl, rfl⟩
      · exact absurd same.symm (get?_eq_none isNew old')
      · rfl

/-- Looking for a slot adds at most this slot. -/
theorem intern_grows (fits : layout.Fits table) {key : SlotKey} {declared : FlowState}
    (known : layout.stateOf key = some declared)
    (older : ∀ parent : Nat, key.parent? = some parent → parent < table.size) :
    Extends table (intern key declared table).2 ∧ layout.Fits (intern key declared table).2 ∧
      (intern key declared table).2.key? (intern key declared table).1 = some key := by
  unfold intern
  cases found : table.get? key with
  | some slot => exact ⟨.refl table, fits, (get?_eq_some fits).mp found⟩
  | none =>
      refine ⟨fun slot info old => ?_, fits_push fits found known older, ?_⟩
      · have inside := (Array.getElem?_eq_some_iff.mp old).1
        simpa [Array.getElem?_push, Nat.ne_of_lt inside] using old
      · simp [key?, size]

/-- A table that has the slot already stays as it is. -/
theorem intern_known (fits : layout.Fits table) {key : SlotKey} {slot : Nat}
    (known : table.key? slot = some key) (declared : FlowState) :
    intern key declared table = (slot, table) := by
  rw [intern, (get?_eq_some fits).mpr known]

/-- In tables of one layout a slot is declared anew only as it was. -/
theorem redeclare_same (fits : layout.Fits table) {slot : Nat} {key : SlotKey}
    (found : table.key? slot = some key) {declared : FlowState}
    (known : layout.stateOf key = some declared) : table.redeclare slot declared = table := by
  obtain ⟨info, atSlot, rfl⟩ := key?_eq_some.mp found
  have same : info.declared = declared := by
    have := fits.declared slot info atSlot
    rw [known] at this
    exact (Option.some.inj this).symm
  obtain ⟨slots⟩ := table
  simp only [redeclare, mk.injEq]
  apply Array.ext_getElem?
  intro other
  rw [Array.getElem?_modify]
  split
  · rename_i isSlot
    subst isSlot
    simp only at atSlot
    rw [atSlot, ← same]
    rfl
  · rfl

/-- Every slot of a fitting table may have members. -/
theorem isStable_of_fits (fits : layout.Fits table) {slot : Nat} {key : SlotKey}
    (found : table.key? slot = some key) : key.isStable = true := by
  obtain ⟨info, atSlot, rfl⟩ := key?_eq_some.mp found
  have known := fits.declared slot info atSlot
  cases isKey : info.key <;> simp_all [Layout.stateOf, SlotKey.isStable]

/-- A table that fits a layout declares every slot as the layout says. -/
theorem declared_of_fits (fits : layout.Fits table) {slot : Nat} {key : SlotKey}
    (found : table.key? slot = some key) : layout.stateOf key = some (table.declared slot) := by
  obtain ⟨info, atSlot, rfl⟩ := key?_eq_some.mp found
  simpa only [declared, atSlot] using fits.declared slot info atSlot

section Descendants

/-- The candidates below a bound that `descendants` finds. -/
def derived (table : SlotTable) (slot : SlotId) (bound : Nat) : List SlotId :=
  (List.range bound).foldl
    (fun found candidate =>
      match table.parent? candidate with
      | some parent =>
          if parent = slot || found.contains parent then found ++ [candidate] else found
      | none => found)
    []

theorem derived_succ (table : SlotTable) (slot : SlotId) (bound : Nat) :
    derived table slot (bound + 1) =
      match table.parent? bound with
      | some parent =>
          if parent = slot || (derived table slot bound).contains parent then
            derived table slot bound ++ [bound]
          else derived table slot bound
      | none => derived table slot bound := by
  rw [derived, List.range_succ, List.foldl_append]
  rfl

/-- The next slot is derived if its parent is the slot in question or was found before. -/
theorem mem_derived_succ (table : SlotTable) (slot : SlotId) (bound candidate : Nat) :
    candidate ∈ derived table slot (bound + 1) ↔ candidate ∈ derived table slot bound ∨
      candidate = bound ∧ ∃ parent, table.parent? bound = some parent ∧
        (parent = slot ∨ parent ∈ derived table slot bound) := by
  rw [derived_succ]
  cases parent : table.parent? bound with
  | none => simp
  | some parent =>
      simp only [Bool.or_eq_true, decide_eq_true_eq, List.contains_iff_mem, Option.some.injEq,
        exists_eq_left']
      split
      · rename_i below
        simp [below]
      · rename_i notBelow
        simp [notBelow]

theorem mem_derived_lt {slot : SlotId} {bound candidate : Nat}
    (member : candidate ∈ derived table slot bound) : candidate < bound := by
  induction bound with
  | zero => simp [derived] at member
  | succ bound ih =>
      rcases (mem_derived_succ table slot bound candidate).mp member with earlier | ⟨rfl, _⟩
      · exact Nat.lt_succ_of_lt (ih earlier)
      · exact Nat.lt_succ_self _

/-- Every slot that is derived from a slot is derived from an older one. -/
structure Rooted (table : SlotTable) : Prop where
  older : ∀ {slot parent : Nat}, table.parent? slot = some parent → parent < slot

/-- In a table that fits a layout, parents are older than their children. -/
theorem parent?_lt (fits : layout.Fits table) {slot parent : Nat}
    (isParent : table.parent? slot = some parent) : parent < slot := by
  obtain ⟨key, atSlot, ofKey⟩ := Option.bind_eq_some_iff.mp isParent
  obtain ⟨info, found, rfl⟩ := key?_eq_some.mp atSlot
  exact fits.older slot info parent found ofKey

/-- The candidates that are found are those whose parent is the slot or is found. -/
theorem mem_derived (table : SlotTable) (slot : SlotId) (bound candidate : Nat) :
    candidate ∈ derived table slot bound ↔ candidate < bound ∧
      ∃ parent : Nat, table.parent? candidate = some parent ∧
        (parent = slot ∨ parent ∈ derived table slot candidate) := by
  induction bound with
  | zero => simp [derived]
  | succ bound ih =>
      rw [mem_derived_succ, ih]
      constructor
      · rintro (⟨inside, below⟩ | ⟨rfl, below⟩)
        · exact ⟨Nat.lt_succ_of_lt inside, below⟩
        · exact ⟨Nat.lt_succ_self _, below⟩
      · rintro ⟨inside, below⟩
        rcases Nat.lt_succ_iff_lt_or_eq.mp inside with earlier | rfl
        · exact Or.inl ⟨earlier, below⟩
        · exact Or.inr ⟨rfl, below⟩

/-- A longer search does not change what is found below a bound. -/
theorem mem_derived_of_lt (table : SlotTable) (slot : SlotId) {bound more candidate : Nat}
    (inside : candidate < bound) (longer : bound ≤ more) :
    candidate ∈ derived table slot more ↔ candidate ∈ derived table slot bound := by
  rw [mem_derived, mem_derived table slot bound]
  constructor
  · exact fun below => ⟨inside, below.2⟩
  · exact fun below => ⟨by omega, below.2⟩

/-- The descendants of a slot are those found once the whole table was passed. -/
theorem descendants_eq (table : SlotTable) (slot : SlotId) :
    table.descendants slot = derived table slot table.size := rfl

/-- A slot is older than its descendants. -/
theorem Rooted.lt_of_mem_descendants (rooted : table.Rooted) {slot : Nat} :
    ∀ {candidate : Nat}, candidate ∈ table.descendants slot → slot < candidate := by
  intro candidate
  induction candidate using Nat.strongRecOn with
  | ind candidate ih =>
      intro member
      rw [descendants_eq, mem_derived] at member
      obtain ⟨inside, parent, isParent, below⟩ := member
      have older := rooted.older isParent
      rcases below with rfl | found
      · exact older
      · have := ih parent older
          ((mem_derived_of_lt table slot (by omega) (by omega)).mpr found)
        omega

/-- In a table that fits a layout, descendants are younger. -/
theorem lt_of_mem_descendants (fits : layout.Fits table) {slot : Nat} :
    ∀ {candidate : Nat}, candidate ∈ table.descendants slot → slot < candidate :=
  (Rooted.mk (parent?_lt fits)).lt_of_mem_descendants

/-- If a set of slots contains the parents of its members, no member of it is derived from a slot
outside the set. -/
theorem not_mem_descendants {kept : SlotId → Prop}
    (closed : ∀ {slot parent}, kept slot → table.parent? slot = some parent → kept parent)
    {slot : SlotId} (outside : ¬kept slot) :
    ∀ {candidate : Nat}, kept candidate → candidate ∉ table.descendants slot := by
  intro candidate
  induction candidate using Nat.strongRecOn with
  | ind candidate ih =>
      intro inside member
      rw [descendants_eq, mem_derived] at member
      obtain ⟨small, parent, isParent, below⟩ := member
      have keptParent := closed inside isParent
      rcases below with rfl | found
      · exact outside keptParent
      · have older := mem_derived_lt found
        exact ih parent older keptParent
          ((mem_derived_of_lt table slot (by omega) (by omega)).mpr found)

/-- A larger table finds the same descendants among the slots of a smaller one. -/
theorem Extends.mem_descendants {before after : SlotTable} (extended : Extends before after)
    (fitsBefore : layout.Fits before) (slot : SlotId) :
    ∀ {candidate : Nat}, candidate < before.size →
    (candidate ∈ after.descendants slot ↔ candidate ∈ before.descendants slot) := by
  have larger := extended.size_le
  intro candidate
  induction candidate using Nat.strongRecOn with
  | ind candidate ih =>
      intro inside
      have sameParent : after.parent? candidate = before.parent? candidate := by
        rw [parent?, parent?, extended.key?_eq inside]
      have sameBelow : ∀ parent : Nat, parent < candidate →
          (parent ∈ derived after slot candidate ↔ parent ∈ derived before slot candidate) := by
        intro parent older
        have same := ih parent older (by omega)
        rw [descendants_eq, descendants_eq,
          mem_derived_of_lt after slot older (by omega),
          mem_derived_of_lt before slot older (by omega)] at same
        exact same
      rw [descendants_eq, descendants_eq, mem_derived, mem_derived before, sameParent]
      constructor
      · rintro ⟨_, parent, isParent, below⟩
        have older := parent?_lt fitsBefore isParent
        exact ⟨inside, parent, isParent, below.imp_right (sameBelow parent older).mp⟩
      · rintro ⟨_, parent, isParent, below⟩
        have older := parent?_lt fitsBefore isParent
        exact ⟨by omega, parent, isParent, below.imp_right (sameBelow parent older).mpr⟩

end Descendants

/-- The slots of a name are those whose keys are members of the name. -/
theorem mem_membersNamed {name : String} {slot : Nat} :
    slot ∈ table.membersNamed name ↔ ∃ parent, table.key? slot = some (.member parent name) := by
  rw [membersNamed, List.mem_filter, List.mem_range]
  constructor
  · rintro ⟨inside, named⟩
    cases found : table.key? slot with
    | none => simp [found] at named
    | some key =>
        cases key <;> simp_all [SlotKey.isMemberNamed]
  · rintro ⟨parent, found⟩
    exact ⟨lt_size_of_key? found, by simp [found, SlotKey.isMemberNamed]⟩

end SlotTable
end NullFlow
