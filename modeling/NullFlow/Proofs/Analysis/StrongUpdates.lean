import NullFlow.Proofs.Analysis.Spilling
/-!
Strong updates. A write to a slot changes nothing but the slot and what is derived from it. Of what is
derived from the slot, only the marks inside the written type and the members of the seeds are known
afterwards.
-/

namespace NullFlow

/-- The steps along a path of members. -/
def memberSteps (path : List (String × FlowState)) : List SlotStep :=
  path.map fun step => .member step.1

/-- The steps to the member that the seed is for. -/
def Seed.steps (seed : Seed) : List SlotStep := memberSteps seed.path

namespace Value

/-- The slot is that of a position inside the type of a value that lies in a slot, and the mark at the
position is not oblivious. -/
def Marks (value : Value) (table : SlotTable) (slot other : SlotId) : Prop :=
  ∃ ty steps position, value.ty? = some ty ∧ steps ≠ [] ∧ ty.inside? steps = some position ∧
    position.mark ≠ .oblivious ∧ table.follow steps slot = some other

/-- The slot is that of a member that the value has a seed for. -/
def Seeds (value : Value) (table : SlotTable) (slot other : SlotId) : Prop :=
  ∃ seed ∈ value.seeds, table.trace seed.steps slot = some other

end Value

namespace Store

/-- All that changes from the first table and store to the second is at or below a slot. -/
structure ChangesBelow (root : SlotId) (before after : SlotTable) (first second : Store) :
    Prop where
  keeps : before.Keeps after
  rooted : after.Rooted
  live : second.Live
  created : ∀ {slot}, before.size ≤ slot → slot < after.size → after.Spans root slot
  declared : ∀ {slot}, ¬after.Spans root slot → after.declared slot = before.declared slot
  entry : ∀ {slot}, ¬after.Spans root slot →
    second.explicit (some slot) = first.explicit (some slot)

section Changes

variable {table before middle after : SlotTable} {store first second third : Store}
  {root slot parent : SlotId} {key : SlotKey}

theorem ChangesBelow.nothing (rooted : table.Rooted) (live : store.Live) (root : SlotId) :
    ChangesBelow root table table store store where
  keeps := .refl table
  rooted
  live
  created old inside := absurd inside (Nat.not_lt_of_le old)
  declared _ := rfl
  entry _ := rfl

/-- Changes below a slot follow one another. -/
theorem ChangesBelow.trans (early : ChangesBelow root before middle first second)
    (late : ChangesBelow root middle after second third) :
    ChangesBelow root before after first third where
  keeps := early.keeps.trans late.keeps
  rooted := late.rooted
  live := late.live
  created {slot} isNew inside := by
    rcases Nat.lt_or_ge slot middle.size with old | newer
    · exact late.keeps.spans (early.created isNew old)
    · exact late.created newer inside
  declared apart := by
    rw [late.declared apart, early.declared (mt late.keeps.spans apart)]
  entry apart := by
    rw [late.entry apart, early.entry (mt late.keeps.spans apart)]

/-- A slot that is derived from a spanned one is spanned too. -/
theorem ChangesBelow.intern (rooted : table.Rooted) (live : store.Live)
    (inside : root < table.size) (spans : table.Spans root parent)
    (derived : key.parent? = some parent) (declared : FlowState) :
    let made := SlotTable.intern key declared table
    ChangesBelow root table made.2 store store ∧ made.2.Spans root made.1 := by
  intro made
  have older : ∀ other : Nat, key.parent? = some other → other < table.size := by
    intro other isParent
    obtain rfl := Option.some.inj (derived.symm.trans isParent)
    exact spans.lt_size inside
  have grows : table.Grows made.2 := SlotTable.grows_intern declared older
  have isParent : made.2.IsParent parent made.1 :=
    SlotTable.isParent_of_key? (SlotTable.key?_intern table key declared) derived
  have isSpanned : made.2.Spans root made.1 := .inr ((grows.keeps.spans spans).derives isParent)
  refine ⟨⟨grows.keeps, grows.rooted rooted, live, ?_, ?_, fun _ => rfl⟩, isSpanned⟩
  · intro slot isNew insideAfter
    exact SlotTable.eq_of_new isNew insideAfter ▸ isSpanned
  · intro slot apart
    exact SlotTable.declared_intern fun isMade => apart (isMade ▸ isSpanned)

/-- Declaring a spanned slot anew changes nothing outside the span. -/
theorem ChangesBelow.redeclare (rooted : table.Rooted) (live : store.Live)
    (spans : table.Spans root slot) (declared : FlowState) :
    ChangesBelow root table (table.redeclare slot declared) store store where
  keeps := (SlotTable.grows_redeclare table slot declared).keeps
  rooted := (SlotTable.grows_redeclare table slot declared).rooted rooted
  live
  created old inside := by
    have sameSize : (table.redeclare slot declared).size = table.size := Array.size_modify ..
    exact absurd (sameSize ▸ inside) (Nat.not_lt_of_le old)
  declared apart := by
    refine SlotTable.declared_redeclare (fun same => apart ?_) declared
    exact same ▸ (SlotTable.grows_redeclare table slot declared).keeps.spans spans
  entry _ := rfl

/-- Assigning to a spanned slot changes nothing outside the span. -/
theorem ChangesBelow.assign (rooted : table.Rooted) (live : store.Live)
    (spans : table.Spans root slot) (state : FlowState) :
    ChangesBelow root table table store (store.assign (some slot) state) where
  keeps := .refl table
  rooted
  live := live.assign (some slot) state
  created old inside := absurd inside (Nat.not_lt_of_le old)
  declared _ := rfl
  entry {other} apart := by
    have differ : other ≠ slot := fun same => apart (same ▸ spans)
    rw [explicit_assign live, if_neg differ]

/-- Forgetting what is derived from the root changes nothing outside its span. -/
theorem ChangesBelow.forget (rooted : table.Rooted) (live : store.Live) (root : SlotId) :
    ChangesBelow root table table store (store.forget (table.descendants root)) where
  keeps := .refl table
  rooted
  live := live.forget _
  created old inside := absurd inside (Nat.not_lt_of_le old)
  declared _ := rfl
  entry {other} apart := by
    have notBelow : other ∉ table.descendants root := fun below =>
      apart (.inr (rooted.mem_descendants_iff.mp below))
    rw [explicit_forget, if_neg notBelow]

theorem ChangesBelow.inside (changes : ChangesBelow root before after first second)
    (inside : root < before.size) : root < after.size :=
  Nat.lt_of_lt_of_le inside changes.keeps.size_le

/-- The position at the end of a step is recorded. -/
theorem record_below (rooted : table.Rooted) (live : store.Live) (inside : root < table.size)
    (spans : table.Spans root parent) (derived : key.parent? = some parent) (ty : Ty) :
    let made := store.record key ty table
    ChangesBelow root table made.2 store made.1.2 ∧ made.2.Spans root made.1.1 := by
  intro made
  obtain ⟨interned, isSpanned⟩ := ChangesBelow.intern rooted live inside spans derived ty.declaredState
  have redeclared := ChangesBelow.redeclare interned.rooted live isSpanned ty.declaredState
  have spansAfter : made.2.Spans root made.1.1 := redeclared.keeps.spans isSpanned
  refine ⟨(interned.trans redeclared).trans ?_, spansAfter⟩
  change ChangesBelow root made.2 made.2 store
    (if ty.mark = .oblivious then store else store.assign (some made.1.1) ty.declaredState)
  split
  · exact .nothing redeclared.rooted live root
  · exact .assign redeclared.rooted live spansAfter ty.declaredState

mutual

/-- The marks inside a type are recorded below the slot. -/
theorem spill_below : ∀ (ty : Ty) {table : SlotTable} {store : Store} {slot : SlotId},
    table.Rooted → store.Live → root < table.size → table.Spans root slot →
    ChangesBelow root table (store.spill slot ty table).2 store (store.spill slot ty table).1
  | .array element _, table, store, slot, rooted, live, inside, spans => by
      have derived : (SlotKey.element slot).parent? = some slot := rfl
      obtain ⟨recorded, spansChild⟩ := record_below rooted live inside spans derived element
      exact recorded.trans
        (spill_below element recorded.rooted recorded.live (recorded.inside inside) spansChild)
  | .named _ arguments _, _, _, _, rooted, live, inside, spans =>
      spillAll_below arguments 0 rooted live inside spans
  | .null _, _, _, _, rooted, live, _, _ => .nothing rooted live root
  | .value .., _, _, _, rooted, live, _, _ => .nothing rooted live root
  | .parameter .., _, _, _, rooted, live, _, _ => .nothing rooted live root
  | .delegate .., _, _, _, rooted, live, _, _ => .nothing rooted live root
  | .dynamic _, _, _, _, rooted, live, _, _ => .nothing rooted live root
  | .error .., _, _, _, rooted, live, _, _ => .nothing rooted live root

/-- Recording type arguments changes nothing outside the span. -/
theorem spillAll_below : ∀ (arguments : List Ty) (index : Nat) {table : SlotTable} {store : Store}
    {slot : SlotId}, table.Rooted → store.Live → root < table.size → table.Spans root slot →
    ChangesBelow root table (store.spillAll slot index arguments table).2 store
      (store.spillAll slot index arguments table).1
  | [], _, _, _, _, rooted, live, _, _ => .nothing rooted live root
  | ty :: rest, index, table, store, slot, rooted, live, inside, spans => by
      have derived : (SlotKey.typeArgument slot index).parent? = some slot := rfl
      obtain ⟨recorded, spansChild⟩ := record_below rooted live inside spans derived ty
      have first := recorded.trans
        (spill_below ty recorded.rooted recorded.live (recorded.inside inside) spansChild)
      exact first.trans (spillAll_below rest (index + 1) first.rooted first.live
        (first.inside inside) (first.keeps.spans spans))

end

/-- A member of a spanned slot is spanned too. -/
theorem member_below (rooted : table.Rooted) (live : store.Live) (inside : root < table.size)
    {receiver? : Option SlotId}
    (spans : ∀ receiver, receiver? = some receiver → table.Spans root receiver) (name : String)
    (declared : FlowState) :
    let found := SlotTable.member receiver? name declared table
    ChangesBelow root table found.2 store store ∧
      ∀ slot, found.1 = some slot → found.2.Spans root slot := by
  cases receiver? with
  | none => exact ⟨.nothing rooted live root, fun slot isSlot => by cases isSlot⟩
  | some receiver =>
      rw [SlotTable.member]
      split
      · have derived : (SlotKey.member receiver name).parent? = some receiver := rfl
        obtain ⟨changes, spansMember⟩ :=
          ChangesBelow.intern rooted live inside (spans receiver rfl) derived declared
        exact ⟨changes, fun slot isSlot => Option.some.inj isSlot ▸ spansMember⟩
      · exact ⟨.nothing rooted live root, fun slot isSlot => by cases isSlot⟩

/-- The slots on a path of members are spanned by the slot where it starts. -/
theorem path_below (path : List (String × FlowState)) (rooted : table.Rooted) (live : store.Live)
    (inside : root < table.size) {start? : Option SlotId}
    (spans : ∀ start, start? = some start → table.Spans root start) :
    let found := path.foldlM (fun place step => SlotTable.member place step.1 step.2) start? table
    ChangesBelow root table found.2 store store ∧
      ∀ slot, found.1 = some slot → found.2.Spans root slot := by
  induction path generalizing table start? with
  | nil => exact ⟨.nothing rooted live root, spans⟩
  | cons step rest ih =>
      obtain ⟨first, spansFirst⟩ := member_below rooted live inside spans step.1 step.2
      obtain ⟨others, spansLast⟩ := ih first.rooted (first.inside inside) spansFirst
      exact ⟨first.trans others, spansLast⟩

/-- Planting a seed changes nothing outside the span. -/
theorem plant_below (rooted : table.Rooted) (live : store.Live) (inside : root < table.size)
    (seed : Seed) :
    ChangesBelow root table (store.plant root seed table).2 store (store.plant root seed table).1 := by
  have fromRoot : ∀ start, some root = some start → table.Spans root start :=
    fun start same => Option.some.inj same ▸ .refl table root
  obtain ⟨reached, spans⟩ := path_below seed.path rooted live inside fromRoot
  refine reached.trans ?_
  change ChangesBelow root _ _ store (store.assign _ seed.state)
  cases place : (seed.path.foldlM (fun place step => SlotTable.member place step.1 step.2)
      (some root) table).1 with
  | none =>
      rw [assign_none]
      exact .nothing reached.rooted live root
  | some slot => exact .assign reached.rooted live (spans slot place) seed.state

/-- Planting all seeds changes nothing outside the span. -/
theorem plants_below (seeds : List Seed) (rooted : table.Rooted) (live : store.Live)
    (inside : root < table.size) :
    ChangesBelow root table (seeds.foldlM (plant root) store table).2 store
      (seeds.foldlM (plant root) store table).1 := by
  induction seeds generalizing table store with
  | nil => exact .nothing rooted live root
  | cons seed rest ih =>
      have first := plant_below rooted live inside seed
      exact first.trans (ih first.rooted first.live (first.inside inside))

end Changes

section Writes

variable {table final : SlotTable} {store : Store} {slot other : SlotId} {value : Value}

/-- The slot holds the state, and nothing else is known below it. -/
def reset (table : SlotTable) (slot : SlotId) (state : FlowState) (store : Store) : Store :=
  (store.forget (table.descendants slot)).assign (some slot) state

/-- Records the marks inside the type of a value below a slot. -/
def spread (slot : SlotId) (ty? : Option Ty) (store : Store) : StateM SlotTable Store :=
  match ty? with
  | some ty => store.spill slot ty
  | none => return store

/-- A write resets the place and what is derived from it, and then spreads the marks and seeds of
the value. -/
theorem write_eq (slot : SlotId) (value : Value) (store : Store) (table : SlotTable) :
    store.write (some slot) value table =
      let marked := (store.reset table slot value.state).spread slot value.ty? table
      value.seeds.foldlM (plant slot) marked.1 marked.2 := by
  obtain ⟨state, ty?, source?, seeds⟩ := value
  cases ty? <;> rfl

/-- A reset changes nothing outside the span. -/
theorem reset_below (rooted : table.Rooted) (live : store.Live) (slot : SlotId) (state : FlowState) :
    ChangesBelow slot table table store (store.reset table slot state) := by
  have forgotten := ChangesBelow.forget rooted live slot
  exact forgotten.trans (.assign rooted forgotten.live (.refl table slot) state)

/-- Spreading the marks of a type changes nothing outside the span. -/
theorem spread_below (rooted : table.Rooted) (live : store.Live) (inside : slot < table.size)
    (ty? : Option Ty) : ChangesBelow slot table (store.spread slot ty? table).2 store
      (store.spread slot ty? table).1 := by
  cases ty? with
  | none => exact .nothing rooted live slot
  | some ty => exact spill_below ty rooted live inside (.refl table slot)

/-- After a reset the place has the new state, and what is derived from it has no record. -/
theorem explicit_reset (live : store.Live) (table : SlotTable) (slot other : SlotId)
    (state : FlowState) : (store.reset table slot state).explicit (some other) =
      if other = slot then some state
      else if other ∈ table.descendants slot then none else store.explicit (some other) := by
  rw [reset, explicit_assign (live.forget _), explicit_forget]

/-- Where the type has no mark to be recorded, an entry stays. -/
theorem explicit_spread (rooted : final.Rooted) (live : store.Live) {ty? : Option Ty}
    (keeps : (store.spread slot ty? table).2.Keeps final)
    (unmarked : ∀ ty steps, ty? = some ty → steps ≠ [] → (ty.recorded? steps).isSome →
      final.follow steps slot ≠ some other) :
    (store.spread slot ty? table).1.explicit (some other) = store.explicit (some other) := by
  cases ty? with
  | none => rfl
  | some ty =>
      have records : Records final slot ty.recorded? store (store.spill slot ty table).1 :=
        spill_records rooted ty live keeps
      by_cases reached : ∃ steps, steps ≠ [] ∧ final.follow steps slot = some other
      · obtain ⟨steps, nested, found⟩ := reached
        have notRecorded : ty.recorded? steps = none := by
          cases recorded : ty.recorded? steps with
          | none => rfl
          | some state => exact absurd found (unmarked ty steps rfl nested (recorded ▸ rfl))
        exact (records.inside nested found).trans (by rw [notRecorded, Option.none_or])
      · exact records.outside fun steps nested found => reached ⟨steps, nested, found⟩

/-- Only positions with a mark of their own are recorded. -/
theorem recorded?_isSome {ty : Ty} {steps : List TyStep}
    (recorded : (ty.recorded? steps).isSome) :
    ∃ position, ty.inside? steps = some position ∧ position.mark ≠ .oblivious := by
  obtain ⟨state, isState⟩ := Option.isSome_iff_exists.mp recorded
  obtain ⟨position, isPosition, isRecorded⟩ := Option.bind_eq_some_iff.mp isState
  refine ⟨position, isPosition, fun oblivious => ?_⟩
  simp [oblivious] at isRecorded

end Writes

section Seeds

variable {table final : SlotTable} {store : Store} {slot other : SlotId}

/-- The slot of a member is found by its key. -/
theorem get?_of_member {receiver child : SlotId} {name : String} {declared : FlowState}
    (found : (SlotTable.member (some receiver) name declared table).1 = some child) :
    (SlotTable.member (some receiver) name declared table).2.get? (.member receiver name) =
      some child := by
  rw [SlotTable.member] at found ⊢
  split at found
  · rename_i stable
    obtain rfl := Option.some.inj found
    rw [if_pos stable]
    exact SlotTable.get?_intern ..
  · cases found

/-- The slot that a path of members finds is the one at the end of their steps. -/
theorem trace_of_path {path : List (String × FlowState)} {start? : Option SlotId}
    (keeps : (path.foldlM (fun place step => SlotTable.member place step.1 step.2) start? table).2.Keeps
      final)
    (found : (path.foldlM (fun place step => SlotTable.member place step.1 step.2) start? table).1 =
      some other) :
    ∃ start, start? = some start ∧
      final.trace (memberSteps path) start = some other := by
  induction path generalizing table start? with
  | nil => exact ⟨other, found, rfl⟩
  | cons step rest ih =>
      obtain ⟨child, isChild, traced⟩ := ih keeps found
      cases start? with
      | none => cases isChild
      | some start =>
          have keepsRest (start? : Option SlotId) : SlotTable.KeepsKeys (rest.foldlM
              (fun place step => SlotTable.member place step.1 step.2) start?) :=
            .foldlM (fun place (step : String × FlowState) => .member place step.1 step.2) start?
          exact ⟨start, rfl, Option.bind_eq_some_iff.mpr
            ⟨child, ((keepsRest _ _).trans keeps).get? (get?_of_member isChild), traced⟩⟩

/-- A seed is recorded for the slot at the end of its steps, if there is one. -/
theorem explicit_plant (live : store.Live) {seed : Seed}
    (keeps : (store.plant slot seed table).2.Keeps final) :
    (store.plant slot seed table).1.explicit (some other) = store.explicit (some other) ∨
      final.trace seed.steps slot = some other ∧
        (store.plant slot seed table).1.explicit (some other) = some seed.state := by
  cases place : (seed.path.foldlM (fun place step => SlotTable.member place step.1 step.2)
      (some slot) table).1 with
  | none =>
      left
      change (store.assign _ seed.state).explicit (some other) = _
      rw [place, assign_none]
  | some found =>
      obtain ⟨start, same, traced⟩ := trace_of_path keeps place
      obtain rfl := Option.some.inj same
      have assigned : (store.plant slot seed table).1.explicit (some other) =
          if other = found then some seed.state else store.explicit (some other) := by
        change (store.assign _ seed.state).explicit (some other) = _
        rw [place, explicit_assign live]
      rw [assigned]
      split
      · rename_i same
        exact .inr ⟨same ▸ traced, rfl⟩
      · exact .inl rfl

theorem plants_keep (seeds : List Seed) (slot : SlotId) (store : Store) (table : SlotTable) :
    table.Keeps (seeds.foldlM (plant slot) store table).2 :=
  SlotTable.KeepsKeys.foldlM (fun store seed => plant_keeps slot store seed) store table

/-- Where no seed belongs, an entry stays. -/
theorem explicit_plants {seeds : List Seed} (live : store.Live)
    (keeps : (seeds.foldlM (plant slot) store table).2.Keeps final)
    (unseeded : ∀ seed ∈ seeds, final.trace seed.steps slot ≠ some other) :
    (seeds.foldlM (plant slot) store table).1.explicit (some other) =
      store.explicit (some other) := by
  induction seeds generalizing table store with
  | nil => rfl
  | cons seed rest ih =>
      obtain ⟨notFirst, notRest⟩ := List.forall_mem_cons.mp unseeded
      have keepsFirst := (plants_keep rest slot _ _).trans keeps
      refine (ih ((live.plant slot seed).answer table) keeps notRest).trans ?_
      rcases explicit_plant live keepsFirst with same | ⟨traced, -⟩
      · exact same
      · exact absurd traced notFirst

end Seeds

section Updates

variable {table : SlotTable} {store : Store} {slot : SlotId}

/-- A write plants the seeds in a store that knows no more than the marks of the value. -/
theorem write_plants (rooted : table.Rooted) (inside : slot < table.size) (live : store.Live)
    (value : Value) :
    let after := store.write (some slot) value table
    ∃ marked before, ChangesBelow slot table before store marked ∧
      after = value.seeds.foldlM (plant slot) marked before ∧
      ∀ other, ¬value.Marks after.2 slot other →
        marked.explicit (some other) =
          (store.reset table slot value.state).explicit (some other) := by
  intro after
  let base := store.reset table slot value.state
  let marked := base.spread slot value.ty? table
  have cleared : ChangesBelow slot table table store base := reset_below rooted live slot value.state
  have changes : ChangesBelow slot table marked.2 store marked.1 :=
    cleared.trans (spread_below rooted cleared.live inside value.ty?)
  have isWrite : after = value.seeds.foldlM (plant slot) marked.1 marked.2 := write_eq ..
  have planted : ChangesBelow slot marked.2 after.2 marked.1 after.1 := by
    rw [isWrite]
    exact plants_below value.seeds changes.rooted changes.live (changes.inside inside)
  refine ⟨marked.1, marked.2, changes, isWrite, fun other unmarked => ?_⟩
  refine explicit_spread planted.rooted cleared.live planted.keeps ?_
  intro ty steps isTy nested recorded found
  obtain ⟨position, isPosition, promises⟩ := recorded?_isSome recorded
  exact unmarked ⟨ty, steps, position, isTy, nested, isPosition, promises, found⟩

/-- A write changes nothing that is not at or below its slot. -/
theorem write_below (rooted : table.Rooted) (inside : slot < table.size) (live : store.Live)
    (value : Value) : ChangesBelow slot table (store.write (some slot) value table).2 store
      (store.write (some slot) value table).1 := by
  obtain ⟨marked, before, changes, isWrite, -⟩ := write_plants rooted inside live value
  rw [isWrite]
  exact changes.trans
    (plants_below value.seeds changes.rooted changes.live (changes.inside inside))

/-- Where neither a mark nor a seed of the value belongs, a write leaves what the reset leaves. -/
theorem explicit_write_other (rooted : table.Rooted) (inside : slot < table.size)
    (live : store.Live) (value : Value) (other : SlotId) :
    let after := store.write (some slot) value table
    ¬value.Marks after.2 slot other → ¬value.Seeds after.2 slot other →
      after.1.explicit (some other) =
        (store.reset table slot value.state).explicit (some other) := by
  intro after unmarked unseeded
  obtain ⟨marked, before, changes, isWrite, same⟩ := write_plants rooted inside live value
  rw [← same other unmarked]
  have planted : (value.seeds.foldlM (plant slot) marked before).2.Keeps after.2 := by
    rw [← isWrite]
    exact .refl after.2
  have kept := explicit_plants changes.live planted fun seed member traced =>
    unseeded ⟨seed, member, traced⟩
  rwa [← isWrite] at kept

end Updates

end Store

/-- Only initializers make seeds, and they make them for members. -/
theorem seeds_nested (context : Context) (expr : Expr) (store : Store) (session : Session) :
    ∀ seed ∈ ((expr.meaning context).value store session).1.1.seeds, seed.path ≠ [] := by
  have covers : Region.whole.onTables.Covers context (expr.meaning context) :=
    (Region.covered_onTables context expr
      ⟨fun _ _ _ _ => trivial, fun _ _ _ _ => trivial, fun _ _ _ _ => trivial⟩).covers
  obtain ⟨-, fits⟩ := @covers.value session store trivial trivial
  exact fun seed member => (fits.plants seed member).1

open Store in
/-- A write to a slot resets what is derived from the slot, and nothing else. What is derived from the
slot has no entry afterwards, except where the type of the value has a mark or the value a seed, and
the slot itself has the state of the value. Seeds are for members, whichever expression has the
value. -/
theorem strong_update_resets_subtree (table : SlotTable) (rooted : table.Rooted) (slot : SlotId)
    (inside : slot < table.size) (value : Value) (store : Store) (live : store.Live) :
    let after := store.write (some slot) value table
    (∀ other, other ≠ slot → ¬after.2.Derives slot other →
      after.1.explicit (some other) = store.explicit (some other) ∧
        after.2.declared other = table.declared other) ∧
    ((∀ seed ∈ value.seeds, seed.path ≠ []) →
      after.1.explicit (some slot) = some value.state) ∧
    (∀ other, table.Derives slot other → ¬value.Marks after.2 slot other →
      ¬value.Seeds after.2 slot other → after.1.explicit (some other) = none) ∧
    (∀ other, table.size ≤ other → other < after.2.size → after.2.Derives slot other) ∧
    (∀ context (expr : Expr) session (reached : Store),
      ∀ seed ∈ ((expr.meaning context).value reached session).1.1.seeds, seed.path ≠ []) := by
  intro after
  have changes : ChangesBelow slot table after.2 store after.1 := write_below rooted inside live value
  have others := explicit_write_other rooted inside live value
  refine ⟨?_, ?_, ?_, ?_, ?_⟩
  · intro other differ notBelow
    have apart : ¬after.2.Spans slot other := fun spans => spans.elim differ notBelow
    exact ⟨changes.entry apart, changes.declared apart⟩
  · intro nested
    have unmarked : ¬value.Marks after.2 slot slot := by
      rintro ⟨ty, steps, position, -, nested, -, -, found⟩
      exact Nat.lt_irrefl _ (changes.rooted.follow_lt nested found)
    have unseeded : ¬value.Seeds after.2 slot slot := by
      rintro ⟨seed, member, traced⟩
      have steps : seed.steps ≠ [] := mt List.map_eq_nil_iff.mp (nested seed member)
      exact Nat.lt_irrefl _ (changes.rooted.lt_of_derives (SlotTable.derives_of_trace steps traced))
    rw [others slot unmarked unseeded, explicit_reset live, if_pos rfl]
  · intro other derives unmarked unseeded
    have younger : other ≠ slot := Nat.ne_of_gt (rooted.lt_of_derives derives)
    rw [others other unmarked unseeded, explicit_reset live, if_neg younger,
      if_pos (rooted.mem_descendants_iff.mpr derives)]
  · intro other isNew insideAfter
    rcases changes.created isNew insideAfter with rfl | derives
    · exact absurd inside (Nat.not_lt_of_le isNew)
    · exact derives
  · exact fun context expr session reached => seeds_nested context expr reached session

/-- A member that is not null is forgotten when the local is assigned. -/
theorem strong_update_resets_member :
    let home := (SlotTable.intern (.localVar 0) .maybeNull .empty).2
    let table := (SlotTable.intern (.member 0 "F") .maybeNull home).2
    let store := Store.entry.assign (some 1) .notNull
    (table.Rooted ∧ 0 < table.size ∧ store.Live) ∧
      let after := store.write (some 0) (.loose .notNull none) table
      after.1.explicit (some 0) = some .notNull ∧ after.1.explicit (some 1) = none := by
  intro home table store
  have rootedHome : home.Rooted :=
    (SlotTable.grows_intern .maybeNull fun _ isParent => by cases isParent).rooted
      SlotTable.rooted_empty
  have rooted : table.Rooted :=
    (SlotTable.grows_intern .maybeNull fun _ isParent => by cases isParent; decide +kernel).rooted
      rootedHome
  have inside : 0 < table.size := by decide +kernel
  have derives : table.Derives 0 1 := .single (by unfold SlotTable.IsParent; decide +kernel)
  obtain ⟨-, held, forgotten, -, -⟩ :=
    strong_update_resets_subtree table rooted 0 inside (.loose .notNull none) store rfl
  have nested : ∀ seed ∈ (Value.loose .notNull none).seeds, seed.path ≠ [] := by
    intro seed member
    cases member
  refine ⟨⟨rooted, inside, rfl⟩, held nested, ?_⟩
  refine forgotten 1 derives ?_ ?_
  · rintro ⟨ty, steps, position, isTy, -⟩
    cases isTy
  · rintro ⟨seed, member, -⟩
    cases member

end NullFlow
