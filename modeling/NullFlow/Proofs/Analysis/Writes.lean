import NullFlow.Proofs.Analysis.Places
/-!
Comparisons of the operations that find members, read slots and write to them.
-/

namespace NullFlow

namespace SlotTable

variable {layout : Layout} {table : SlotTable}

/-- The member of a slot of a fitting table is always tracked. -/
theorem member_some (fits : layout.Fits table) {receiver : Nat} (inside : receiver < table.size)
    (name : String) (declared : FlowState) :
    member (some receiver) name declared table =
      (some (intern (.member receiver name) declared table).1,
        (intern (.member receiver name) declared table).2) := by
  have found := Array.getElem?_eq_getElem inside
  have isKey : table.key? receiver = some table.slots[receiver].key := by
    rw [key?, found]
    rfl
  have stable := isStable_of_fits fits isKey
  simp only [member, isKey, Option.any_some, stable, if_true]
  rfl

/-- In a table that fits a layout every receiver is stable, so its members have slots. -/
theorem member_isSome (fits : layout.Fits table) {receiver? : Option SlotId}
    (inside : ∀ slot : Nat, receiver? = some slot → slot < table.size) (name : String)
    (declared : FlowState) (present : receiver?.isSome = true) :
    (member receiver? name declared table).1.isSome = true := by
  obtain ⟨receiver, rfl⟩ := Option.isSome_iff_exists.mp present
  rw [member_some fits (inside receiver rfl)]
  rfl

end SlotTable

namespace Comparison

variable {pair : Comparison} {first second : Session} {one two : Store} {tracked : Bool}

section Members

/-- Places of members of the name. -/
def named (name : String) : View (Option SlotId) where
  fits table slot? := ∀ slot : Nat, slot? = some slot →
    ∃ parent, table.key? slot = some (.member parent name)
  alike one two := one = two
  grow extended isMember slot found :=
    (isMember slot found).imp fun _ isKey => extended.key? isKey

theorem Related.place_of_named {name : String} {slotOne slotTwo : Option SlotId}
    (related : pair.Related (named name) first second slotOne slotTwo) :
    pair.Related place first second slotOne slotTwo := by
  refine related.with (fun slot found => ?_) (fun slot found => ?_) related.alike
  · obtain ⟨_, isKey⟩ := related.fitsFirst slot found
    exact SlotTable.lt_size_of_key? isKey
  · obtain ⟨_, isKey⟩ := related.fitsSecond slot found
    exact SlotTable.lt_size_of_key? isKey

theorem member_alone {session : Session} (fits : pair.layout.Fits session.slots)
    {receiver? : Option SlotId}
    (inside : ∀ slot : Nat, receiver? = some slot → slot < session.slots.size) {name : String}
    {declared : FlowState} (known : pair.layout.memberState name = declared) :
    pair.Alone (named name) session
      (Analysis.onSlots (SlotTable.member receiver? name declared)) := by
  cases receiver? with
  | none => exact ⟨.refl fits, fun slot found => by cases found⟩
  | some receiver =>
      have isMember : pair.layout.stateOf (.member receiver name) = some declared :=
        congrArg some known
      have older : ∀ parent : Nat, (SlotKey.member receiver name).parent? = some parent →
          parent < session.slots.size := fun parent isParent => inside parent isParent
      obtain ⟨extended, fitsAfter, found⟩ := SlotTable.intern_grows fits isMember older
      have result := SlotTable.member_some fits (inside receiver rfl) name declared
      refine ⟨grows_onSlots ?_ ?_, fun slot same => ?_⟩
      · rw [result]
        exact extended
      · rw [result]
        exact fitsAfter
      · simp only [Analysis.onSlots, result, Option.some.injEq] at same ⊢
        exact ⟨receiver, same ▸ found⟩

/-- Both runs find or make slots for the same member. -/
theorem Runs.member {slotOne slotTwo : Option SlotId}
    (related : pair.Related place first second slotOne slotTwo) {name : String}
    {declared : FlowState} (known : pair.layout.memberState name = declared) :
    pair.Runs (named name) first second
      (Analysis.onSlots (SlotTable.member slotOne name declared))
      (Analysis.onSlots (SlotTable.member slotTwo name declared)) := by
  refine ⟨member_alone related.layoutFirst related.fitsFirst known,
    member_alone related.layoutSecond related.fitsSecond known, fun extended => ?_⟩
  have grows := (member_alone related.layoutFirst related.fitsFirst known).grows.slots
  obtain rfl : slotOne = slotTwo := related.alike (grows.trans extended)
  cases slotOne with
  | none => rfl
  | some receiver =>
      have isMember : pair.layout.stateOf (.member receiver name) = some declared :=
        congrArg some known
      have resultOne := SlotTable.member_some related.layoutFirst (related.fitsFirst receiver rfl)
        name declared
      have resultTwo := SlotTable.member_some related.layoutSecond
        (related.fitsSecond receiver rfl) name declared
      have older : ∀ parent : Nat, (SlotKey.member receiver name).parent? = some parent →
          parent < first.slots.size := fun parent isParent => related.fitsFirst parent isParent
      simp only [Analysis.onSlots, resultOne] at extended
      simp only [named, Analysis.onSlots, resultOne, resultTwo, Option.some.injEq]
      exact intern_alike related.layoutFirst related.layoutSecond related.reached isMember older
        extended

end Members

section Lifting

variable {Result Other Item : Type}

/-- Actions on slots run on the session one after the other. -/
theorem onSlots_bind (action : StateM SlotTable Result) (next : Result → StateM SlotTable Other) :
    Analysis.onSlots (action >>= next) =
      Analysis.onSlots action >>= fun result => Analysis.onSlots (next result) := rfl

/-- A loop over slots runs on the session round by round. -/
theorem onSlots_foldlM (body : Result → Item → StateM SlotTable Result) (items : List Item)
    (start : Result) : Analysis.onSlots (items.foldlM body start) =
      items.foldlM (fun result item => Analysis.onSlots (body result item)) start := by
  induction items generalizing start with
  | nil => rfl
  | cons item rest ih =>
      rw [List.foldlM_cons, List.foldlM_cons, onSlots_bind]
      exact congrArg _ (funext ih)

end Lifting

section Write

/-- Both runs follow the same path of members. -/
theorem Runs.follow (path : List (String × FlowState))
    (fits : ∀ step ∈ path, pair.layout.memberState step.1 = step.2)
    {first second : Session} {slotOne slotTwo : Option SlotId}
    (related : pair.Related place first second slotOne slotTwo) :
    pair.Runs place first second
      (path.foldlM (fun place step => Analysis.onSlots (SlotTable.member place step.1 step.2))
        slotOne)
      (path.foldlM (fun place step => Analysis.onSlots (SlotTable.member place step.1 step.2))
        slotTwo) := by
  induction path generalizing first second slotOne slotTwo with
  | nil => exact .pure related
  | cons step rest ih =>
      rw [List.foldlM_cons, List.foldlM_cons]
      refine (Runs.member related (fits step List.mem_cons_self)).bind related.reached ?_
      intro first' second' nextOne nextTwo _ _ next
      exact ih (fun later member => fits later (List.mem_cons_of_mem _ member))
        next.place_of_named

/-- Seeds that are alike are planted in related stores. -/
theorem Runs.plant {slotOne slotTwo : SlotId} (related : pair.Related slot first second slotOne slotTwo)
    (stores : pair.Related pair.stores first second one two) {seedOne seedTwo : Seed}
    (fits : seedOne.Fits pair.layout) (alike : seedOne.Alike pair.bound seedTwo) :
    pair.Runs pair.stores first second (Analysis.onSlots (Store.plant slotOne one seedOne))
      (Analysis.onSlots (Store.plant slotTwo two seedTwo)) := by
  obtain ⟨path, stateOne⟩ := seedOne
  obtain ⟨path', stateTwo⟩ := seedTwo
  obtain ⟨samePath, holds⟩ := alike
  change path = path' at samePath
  subst samePath
  simp only [Store.plant, onSlots_bind, onSlots_foldlM]
  have start : pair.Related place first second (some slotOne) (some slotTwo) := by
    refine related.with (fun slot same => ?_) (fun slot same => ?_) fun known => ?_
    · exact Option.some.inj same ▸ related.fitsFirst
    · exact Option.some.inj same ▸ related.fitsSecond
    · exact congrArg some (related.alike known)
  refine (Runs.follow path fits start).bind related.reached ?_
  intro first' second' placeOne placeTwo growsFirst growsSecond places
  have states : pair.Related pair.states first' second' stateOne stateTwo :=
    places.with trivial trivial fun _ => holds
  exact .pure (places.assign states (stores.grow growsFirst growsSecond))

/-- All seeds of a new object are planted in related stores. -/
theorem Runs.plantAll {slotOne slotTwo : SlotId} {seedsOne seedsTwo : List Seed}
    (fits : ∀ seed ∈ seedsOne, seed.Fits pair.layout)
    (alike : List.Forall₂ (Seed.Alike pair.bound) seedsOne seedsTwo)
    {first second : Session} {one two : Store}
    (related : pair.Related slot first second slotOne slotTwo)
    (stores : pair.Related pair.stores first second one two) :
    pair.Runs pair.stores first second
      (seedsOne.foldlM (fun store seed => Analysis.onSlots (Store.plant slotOne store seed)) one)
      (seedsTwo.foldlM (fun store seed => Analysis.onSlots (Store.plant slotTwo store seed))
        two) := by
  induction alike generalizing first second one two with
  | nil => exact .pure stores
  | cons alikeHead _ ih =>
      rw [List.foldlM_cons, List.foldlM_cons]
      refine (Runs.plant related stores (fits _ List.mem_cons_self) alikeHead).bind
        related.reached ?_
      intro first' second' nextOne nextTwo growsFirst growsSecond next
      exact ih (fun seed member => fits seed (List.mem_cons_of_mem _ member))
        (related.grow growsFirst growsSecond) next

/-- A flat value leaves nothing to record below the slot but its seeds. -/
theorem onSlots_write {value : Value} (flat : value.ty?.all Ty.isFlat = true) (slot : SlotId)
    (store : Store) : Analysis.onSlots (store.write (some slot) value) =
      Analysis.slots >>= fun table =>
        value.seeds.foldlM (fun store seed => Analysis.onSlots (Store.plant slot store seed))
          ((store.forget (table.descendants slot)).assign (some slot) value.state) := by
  obtain ⟨state, ty?, slot?, seeds⟩ := value
  have spilled : ∀ ty : Ty, ty.isFlat = true → ∀ store table,
      Store.spill slot ty store table = (store, table) := by
    intro ty flat store table
    cases ty with
    | named name arguments mark =>
        obtain rfl := List.isEmpty_iff.mp flat
        rfl
    | array element mark => cases flat
    | _ => rfl
  funext session
  simp only [← onSlots_foldlM]
  cases ty? with
  | none => rfl
  | some ty =>
      simp only [Analysis.onSlots, Store.write, bind, StateT.bind, get, getThe, MonadStateOf.get,
        StateT.get, pure, spilled ty flat, Analysis.slots]

/-- A write does not change whether a store is reachable. -/
theorem isReachable_write {value : Value} (flat : value.ty?.all Ty.isFlat = true)
    (slot? : Option SlotId) (store : Store) (session : Session) :
    (Analysis.onSlots (store.write slot? value) session).1.isReachable = store.isReachable := by
  have planted : ∀ (seeds : List Seed) (slot : SlotId) (store : Store) (session : Session),
      (seeds.foldlM (fun store seed => Analysis.onSlots (Store.plant slot store seed)) store
        session).1.isReachable = store.isReachable := by
    intro seeds slot
    induction seeds with
    | nil => exact fun _ _ => rfl
    | cons seed rest ih =>
        intro store session
        rw [List.foldlM_cons]
        exact (ih _ _).trans (Store.isReachable_assign ..)
  cases slot? with
  | none => rfl
  | some slot =>
      rw [onSlots_write flat]
      exact (planted _ _ _ _).trans (by simp)

/-- Forgetting what is derived from related slots keeps stores related. -/
theorem forget_related {slotOne slotTwo : SlotId}
    (related : pair.Related slot first second slotOne slotTwo)
    (stores : pair.Related pair.stores first second one two) :
    pair.Related pair.stores first second (one.forget (first.slots.descendants slotOne))
      (two.forget (second.slots.descendants slotTwo)) := by
  refine stores.with (stores.fitsFirst.forget _) (stores.fitsSecond.forget _) fun known => ?_
  obtain rfl : slotOne = slotTwo := related.alike known
  exact (stores.alike known).forget (known.trans stores.reached) stores.layoutFirst
    stores.fitsFirst slotOne

/-- Values that are alike are written to places that both runs know. -/
theorem Runs.write_known {tracked : Bool} {slotOne slotTwo : Option SlotId}
    {valueOne valueTwo : Value} (places : pair.Related place first second slotOne slotTwo)
    (values : pair.Related (pair.values tracked) first second (valueOne, one) (valueTwo, two))
    (known : first.slots.Extends pair.target) :
    pair.Runs pair.stores first second (Analysis.onSlots (one.write slotOne valueOne))
      (Analysis.onSlots (two.write slotTwo valueTwo)) := by
  obtain rfl : slotOne = slotTwo := places.alike known
  cases slotOne with
  | none => exact .pure values.stores_of_values
  | some target =>
      have slots : pair.Related slot first second target target :=
        places.with (places.fitsFirst target rfl) (places.fitsSecond target rfl) fun _ => rfl
      rw [onSlots_write values.fitsFirst.1.flat, onSlots_write values.fitsSecond.1.flat]
      refine .withSlots ?_
      have cleared := forget_related slots values.stores_of_values
      exact .plantAll values.fitsFirst.1.seeds (values.alike known).1.seeds slots
        (places.assign values.states_of_values cleared)

theorem alike_refl {bound : Bound} (value : Value) : value.Alike bound value where
  slot := rfl
  state := Bound.refl _
  shape := rfl
  seeds := List.forall₂_same.mpr fun _ _ => ⟨rfl, Bound.refl _⟩

/-- Values that are alike are written to related places. -/
theorem Runs.write {tracked : Bool} {slotOne slotTwo : Option SlotId} {valueOne valueTwo : Value}
    (places : pair.Related place first second slotOne slotTwo)
    (values : pair.Related (pair.values tracked) first second (valueOne, one) (valueTwo, two)) :
    pair.Runs pair.stores first second (Analysis.onSlots (one.write slotOne valueOne))
      (Analysis.onSlots (two.write slotTwo valueTwo)) := by
  by_cases known : first.slots.Extends pair.target
  · exact .write_known places values known
  · have alone : ∀ {session : Session} {slot? : Option SlotId} {value : Value} {store : Store},
        pair.layout.Fits session.slots → place.fits session.slots slot? →
        (pair.values tracked).fits session.slots (value, store) →
        pair.Alone pair.stores session (Analysis.onSlots (store.write slot? value)) := by
      intro session slot? value store layoutFits inside fits
      have self : (pair.self session).Runs (pair.self session).stores session session
          (Analysis.onSlots (store.write slot? value))
          (Analysis.onSlots (store.write slot? value)) :=
        .write_known (.self layoutFits inside rfl)
          (.self layoutFits fits ⟨alike_refl value, .refl store⟩) (.refl _)
      exact .of_self self fun _ _ within => within
    exact .of_alone known (alone places.layoutFirst places.fitsFirst values.fitsFirst)
      (alone places.layoutSecond places.fitsSecond values.fitsSecond)

end Write

section Reading

/-- A value that lies at no place fits, unless control reaches it and it should be tracked. -/
theorem loose_fits {table : SlotTable} {store : Store} (within : store.Within table)
    {ty? : Option Ty} (flat : ty?.all Ty.isFlat = true) (state : FlowState)
    (loose : tracked = true → store.isReachable = false) :
    (pair.values tracked).fits table (.loose state ty?, store) := by
  refine ⟨⟨fun slot found => ?_, flat, fun seed member => ?_⟩, fun slot found => ?_, within,
    fun isTracked reachable => ?_⟩
  · cases found
  · cases member
  · cases found
  · rw [loose isTracked] at reachable
    cases reachable

/-- Values without a place are related if their states are. -/
theorem Related.loose {stateOne stateTwo : FlowState} {tyOne? tyTwo? : Option Ty}
    (stores : pair.Related pair.stores first second one two)
    (states : pair.Related pair.states first second stateOne stateTwo)
    (flatOne : tyOne?.all Ty.isFlat = true) (flatTwo : tyTwo?.all Ty.isFlat = true)
    (shape : first.slots.Extends pair.target → tyOne?.map Ty.shape = tyTwo?.map Ty.shape) :
    pair.Related (pair.values false) first second (.loose stateOne tyOne?, one)
      (.loose stateTwo tyTwo?, two) :=
  stores.with (loose_fits stores.fitsFirst flatOne _ fun never => by cases never)
    (loose_fits stores.fitsSecond flatTwo _ fun never => by cases never) fun known =>
    ⟨⟨rfl, states.alike known, shape known, .nil⟩, stores.alike known⟩

/-- The type of a flat place is its declaration in the state that the store knows. -/
theorem ty?_ofSlot {declared : Ty} (flat : declared.isFlat = true) (table : SlotTable)
    (store : Store) (slot? : Option SlotId) : (Value.ofSlot table store declared slot?).ty? =
      some (declared.withState (store.lookup table slot?)) := by
  cases slot? with
  | none => rfl
  | some slot =>
      simp only [Value.ofSlot]
      rw [Ty.refine_of_flat table store slot (by simpa using flat)]

theorem ofSlot_fits {table : SlotTable} {store : Store} {slot? : Option SlotId} {declared : Ty}
    (flat : declared.isFlat = true) (places : Store.Places tracked table slot? store) :
    (pair.values tracked).fits table (.ofSlot table store declared slot?, store) := by
  refine ⟨⟨places.inside, ?_, fun seed member => ?_⟩, places⟩
  · rw [ty?_ofSlot flat]
    simpa using flat
  · cases member

/-- The value read from a slot of a flat type. -/
theorem Related.ofSlot {slotOne slotTwo : Option SlotId} {declared : Ty}
    (flat : declared.isFlat = true)
    (related : pair.Related (pair.places tracked) first second (slotOne, one) (slotTwo, two)) :
    pair.Related (pair.values tracked) first second
      (.ofSlot first.slots one declared slotOne, one)
      (.ofSlot second.slots two declared slotTwo, two) := by
  have states := related.place_of_places.lookup related.stores_of_places
  refine related.with (ofSlot_fits flat related.fitsFirst) (ofSlot_fits flat related.fitsSecond)
    fun known => ⟨⟨(related.alike known).1, states.alike known, ?_, .nil⟩, (related.alike known).2⟩
  rw [ty?_ofSlot flat, ty?_ofSlot flat]
  simp

/-- The value of a member of the declared type at a place. -/
def placed (table : SlotTable) (store : Store) (declared : Ty) : Option SlotId → Value
  | none => .loose declared.declaredState (some declared)
  | some slot => .ofSlot table store declared (some slot)

/-- Reading a slot of a member declares it as it was declared before. -/
theorem placeValue_eq {session : Session} (fits : pair.layout.Fits session.slots) {name : String}
    {slot? : Option SlotId} (isMember : (named name).fits session.slots slot?) {declared : Ty}
    (known : pair.layout.memberState name = declared.declaredState) (store : Store) :
    placeValue declared slot? store session =
      (placed session.slots store declared slot?, session) := by
  cases slot? with
  | none => rfl
  | some slot =>
      obtain ⟨parent, isKey⟩ := isMember slot rfl
      have unchanged := SlotTable.redeclare_same fits isKey
        (show pair.layout.stateOf _ = some declared.declaredState from congrArg some known)
      change (Value.ofSlot (session.slots.redeclare slot declared.declaredState) store declared
        (some slot), { session with slots := session.slots.redeclare slot _ }) = _
      rw [unchanged]
      rfl

theorem placed_fits {table : SlotTable} {store : Store} {slot? : Option SlotId} {declared : Ty}
    (flat : declared.isFlat = true) (places : Store.Places tracked table slot? store) :
    (pair.values tracked).fits table (placed table store declared slot?, store) := by
  cases slot? with
  | none =>
      refine loose_fits places.within (by simpa using flat) _ fun isTracked => ?_
      cases reachable : store.isReachable with
      | false => rfl
      | true => exact absurd (places.present isTracked reachable) (by simp)
  | some slot => exact ofSlot_fits flat places

/-- Related places of the same declaration have related values. -/
theorem Runs.placeValue {name : String} {slotOne slotTwo : Option SlotId} {declared : Ty}
    (flat : declared.isFlat = true)
    (known : pair.layout.memberState name = declared.declaredState)
    (isMember : pair.Related (named name) first second slotOne slotTwo)
    (places : pair.Related (pair.places tracked) first second (slotOne, one) (slotTwo, two)) :
    pair.Runs (pair.values tracked) first second
      (do return (← NullFlow.placeValue declared slotOne one, one))
      (do return (← NullFlow.placeValue declared slotTwo two, two)) := by
  have resultOne := placeValue_eq places.layoutFirst isMember.fitsFirst known one
  have resultTwo := placeValue_eq places.layoutSecond isMember.fitsSecond known two
  have related : pair.Related (pair.values tracked) first second
      (placed first.slots one declared slotOne, one)
      (placed second.slots two declared slotTwo, two) := by
    refine places.with (placed_fits flat places.fitsFirst) (placed_fits flat places.fitsSecond)
      fun extended => ?_
    obtain rfl : slotOne = slotTwo := (places.alike extended).1
    cases slotOne with
    | none => exact ⟨alike_refl _, (places.alike extended).2⟩
    | some slot => exact (places.ofSlot flat).alike extended
  refine (Runs.pure related).congr ?_ ?_
  · exact congrArg (fun result => ((result.1, one), result.2)) resultOne
  · exact congrArg (fun result => ((result.1, two), result.2)) resultTwo

end Reading

section Dereference

variable {Result : Type} {view : View Result}

/-- After a dereference the receiver is not null. -/
theorem dereference_fst (context : Context) (receiver : Value) (span : Span) (store : Store)
    (session : Session) : (context.dereference receiver span store session).1 =
      store.assign receiver.slot? .notNull := by
  cases store with
  | unreachable => rfl
  | reachable facts =>
      rw [Context.dereference, if_neg (by simp [Store.isReachable])]
      split
      · rfl
      · rfl

theorem Silent.dereference (context : Context) (receiver : Value) (span : Span) (store : Store) :
    Silent (context.dereference receiver span store) :=
  .ite _ (.pure _) (.ite _ (.bind (.emit _) fun _ => .pure _) (.pure _))

/-- After a dereference both runs know that the receiver is not null. -/
theorem Runs.bind_dereference {context : Context} {valueOne valueTwo : Value} {span : Span}
    {nextOne nextTwo : Store → Analysis Result}
    (values : pair.Related (pair.values tracked) first second (valueOne, one) (valueTwo, two))
    (next : ∀ {first' second' one' two'}, pair.Grows first first' → pair.Grows second second' →
      pair.Related (pair.values tracked) first' second' (valueOne, one') (valueTwo, two') →
      pair.Runs view first' second' (nextOne one') (nextTwo two')) :
    pair.Runs view first second (context.dereference valueOne span one >>= nextOne)
      (context.dereference valueTwo span two >>= nextTwo) := by
  have silent := Silent.runs (.dereference context valueOne span one)
    (.dereference context valueTwo span two) values
  refine silent.bind_eq values.reached ?_
  intro first' second' one' two' resultOne resultTwo growsFirst growsSecond _
  obtain rfl : one' = one.assign valueOne.slot? .notNull := by
    rw [← dereference_fst context valueOne span one first, resultOne]
  obtain rfl : two' = two.assign valueTwo.slot? .notNull := by
    rw [← dereference_fst context valueTwo span two second, resultTwo]
  have after := values.grow growsFirst growsSecond
  have stores := after.place_of_values.assign (after.stores_of_values.states .notNull)
    after.stores_of_values
  have places := after.places_of_values.placeStores stores (by simp) (by simp)
  exact next growsFirst growsSecond
    (after.with ⟨after.fitsFirst.1, places.fitsFirst⟩ ⟨after.fitsSecond.1, places.fitsSecond⟩
      fun known => ⟨(after.alike known).1, (places.alike known).2⟩)

end Dereference

section Invalidate

@[simp] theorem invalidate_unreachable (table : SlotTable) (name : String) :
    Store.unreachable.invalidate table name = .unreachable := by
  rw [Store.invalidate_eq]
  induction table.membersNamed name with
  | nil => rfl
  | cons slot rest ih => exact ih

/-- An invalidation stays in the table. -/
theorem within_invalidate {table : SlotTable} {store : Store} (within : store.Within table)
    (name : String) : (store.invalidate table name).Within table := by
  rw [Store.invalidate_eq]
  refine within.invalidateAll fun slot member => ?_
  obtain ⟨parent, isKey⟩ := SlotTable.mem_membersNamed.mp member
  exact SlotTable.lt_size_of_key? isKey

@[simp] theorem isReachable_invalidate (table : SlotTable) (name : String) (store : Store) :
    (store.invalidate table name).isReachable = store.isReachable := by
  rw [Store.invalidate_eq, Store.isReachable_invalidateAll]

/-- The store after a write to a member was prepared. Without a place any member of the name may
be written. -/
def settle (table : SlotTable) (name : String) (store : Store) : Option SlotId → Store
  | some _ => store
  | none => store.invalidate table name

/-- A write to an unknown receiver leaves places of the table. -/
theorem settle_fits {table : SlotTable} {slot? : Option SlotId} {store : Store}
    (places : Store.Places tracked table slot? store) (name : String) :
    Store.Places tracked table slot? (settle table name store slot?) := by
  cases slot? with
  | some slot => exact places
  | none =>
      refine ⟨places.inside, within_invalidate places.within name, fun isTracked reachable => ?_⟩
      exact places.present isTracked ((isReachable_invalidate table name store).symm.trans reachable)

/-- Writes to all members of a name compare if a place is always known, or if the second run may
know less. -/
theorem Related.settle {slotOne slotTwo : Option SlotId} (name : String)
    (settled : tracked = true ∨ pair.bound = .upper)
    (related : pair.Related (pair.places tracked) first second (slotOne, one) (slotTwo, two)) :
    pair.Related (pair.places tracked) first second
      (slotOne, settle first.slots name one slotOne)
      (slotTwo, settle second.slots name two slotTwo) := by
  refine related.with (settle_fits related.fitsFirst name) (settle_fits related.fitsSecond name)
    fun known => ?_
  obtain ⟨same, matching⟩ := related.alike known
  obtain rfl : slotOne = slotTwo := same
  refine ⟨rfl, ?_⟩
  cases slotOne with
  | some slot => exact matching
  | none =>
      rcases settled with isTracked | isUpper
      · have unreached : ∀ {table : SlotTable} {store : Store},
            Store.Places tracked table none store → store = .unreachable := by
          intro table store places
          cases store with
          | unreachable => rfl
          | reachable facts => exact absurd (places.present isTracked rfl) (by simp)
        have unreachedOne := unreached related.fitsFirst
        have unreachedTwo := unreached related.fitsSecond
        simp only at unreachedOne unreachedTwo
        subst unreachedOne unreachedTwo
        simp only [Comparison.settle, invalidate_unreachable]
        exact matching
      · simp only [isUpper] at matching ⊢
        exact matching.invalidate (known.trans related.reached) related.layoutFirst
          related.layoutSecond related.fitsFirst.within name

end Invalidate

end Comparison
end NullFlow
