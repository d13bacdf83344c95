import Mathlib.Data.List.Perm.Lattice
import NullFlow.Proofs.Store.IndexedTable
/-!
Operations on slot tables. Whichever operations build a table, in whichever order, its slots form a
forest: the index, the lists of children and the chains of parents agree, and members are derived from
locals, `this` and other members alone. A table evolves if such operations make another of it.
-/

namespace NullFlow

/-- An operation on a table of slots. Most ask for a slot. -/
inductive SlotOperation where
  | localVar (id : LocalId) (declared : FlowState)
  | this
  | member (receiver? : Option SlotId) (name : String) (declared : FlowState)
  | element (array? : Option SlotId) (declared : FlowState)
  | typeArgument (generic? : Option SlotId) (index : Nat) (declared : FlowState)
  | intern (key : SlotKey) (declared : FlowState)
  | redeclare (slot? : Option SlotId) (declared : FlowState)

/-- What an operation comes to in a given table. -/
inductive SlotRequest where
  | ask (key : SlotKey) (declared : FlowState)
  | declare (slot : SlotId) (declared : FlowState)
  | nothing

namespace SlotRequest

def run : SlotRequest → StateM SlotTable (Option SlotId)
  | ask key declared => some <$> SlotTable.intern key declared
  | declare slot declared => fun table => (none, table.redeclare slot declared)
  | nothing => pure none

def runIndexed : SlotRequest → StateM IndexedTable (Option SlotId)
  | ask key declared => some <$> IndexedTable.intern key declared
  | declare slot declared => fun indexed => (none, indexed.redeclare slot declared)
  | nothing => pure none

/-- The key of the slot that is asked for. -/
def key? : SlotRequest → Option SlotKey
  | ask key _ => some key
  | declare .. => none
  | nothing => none

end SlotRequest

namespace SlotOperation

def run : SlotOperation → StateM SlotTable (Option SlotId)
  | localVar id declared => some <$> SlotTable.intern (.localVar id) declared
  | this => some <$> SlotTable.intern .this .notNull
  | member receiver? name declared => SlotTable.member receiver? name declared
  | element array? declared => SlotTable.element array? declared
  | typeArgument generic? index declared => SlotTable.typeArgument generic? index declared
  | intern key declared => some <$> SlotTable.intern key declared
  | redeclare none _ => pure none
  | redeclare (some slot) declared => fun table => (none, table.redeclare slot declared)

/-- A place without a slot asks for nothing, and neither does a member of an unstable place. -/
def request (table : SlotTable) : SlotOperation → SlotRequest
  | localVar id declared => .ask (.localVar id) declared
  | this => .ask .this .notNull
  | member (some receiver) name declared =>
      if (table.key? receiver).any SlotKey.isStable then .ask (.member receiver name) declared
      else .nothing
  | element (some array) declared => .ask (.element array) declared
  | typeArgument (some generic) index declared => .ask (.typeArgument generic index) declared
  | intern key declared => .ask key declared
  | redeclare (some slot) declared => .declare slot declared
  | member none .. => .nothing
  | element none _ => .nothing
  | typeArgument none .. => .nothing
  | redeclare none _ => .nothing

/-- The slots that the operation names are in the table, and an index has 32 bits. -/
def Fits (table : SlotTable) : SlotOperation → Prop
  | localVar .. => True
  | this => True
  | member receiver? .. => table.Has receiver?
  | element array? _ => table.Has array?
  | typeArgument generic? index _ => table.Has generic? ∧ index < 1 <<< 32
  | intern key _ => table.Has key.parent?
  | redeclare slot? _ => table.Has slot?

/-- The operation asks for the key of a member as it is. -/
def IsRawMember : SlotOperation → Prop
  | intern (.member ..) _ => True
  | _ => False

end SlotOperation

namespace SlotTable

/-- The table after the operations, starting with an empty one. -/
def build (operations : List SlotOperation) : SlotTable :=
  operations.foldl (fun table operation => (operation.run table).2) .empty

/-- Every operation fits the table that it is given. -/
def AllFit (operations : List SlotOperation) : Prop :=
  ∀ early operation late, operations = early ++ operation :: late → operation.Fits (build early)

/-- An operation asks for the key, and the slot is the answer. -/
def Answers (operations : List SlotOperation) (key : SlotKey) (slot : SlotId) : Prop :=
  ∃ early operation late, operations = early ++ operation :: late ∧
    (operation.request (build early)).key? = some key ∧ (operation.run (build early)).1 = some slot

end SlotTable

/-- The table with its index and its lists of children after the operations. -/
def IndexedTable.build (operations : List SlotOperation) : IndexedTable :=
  operations.foldl
    (fun indexed operation => ((operation.request indexed.table).runIndexed indexed).2) .empty

section Steps

variable {table : SlotTable} {indexed : IndexedTable} {operation : SlotOperation}

/-- An operation does what it asks for. -/
theorem SlotOperation.run_eq (fits : operation.Fits table) :
    operation.run table = (operation.request table).run table := by
  cases operation with
  | localVar id declared => rfl
  | this => rfl
  | member receiver? name declared =>
      cases receiver? with
      | none => rfl
      | some receiver =>
          rw [run, request, SlotTable.member]
          split
          · rfl
          · rfl
  | element array? declared => cases array? <;> rfl
  | typeArgument generic? index declared =>
      cases generic? with
      | none => rfl
      | some generic =>
          rw [run, SlotTable.typeArgument, Nat.mod_eq_of_lt fits.2]
          rfl
  | intern key declared => rfl
  | redeclare slot? declared => cases slot? <;> rfl

/-- The parent of a key that is asked for is in the table. -/
theorem SlotOperation.has_parent (fits : operation.Fits table) {key : SlotKey}
    {declared : FlowState} (asks : operation.request table = .ask key declared) :
    table.Has key.parent? := by
  cases operation with
  | localVar id _ =>
      obtain ⟨rfl, -⟩ := SlotRequest.ask.inj asks
      exact ⟨fun slot isParent => nomatch isParent⟩
  | this =>
      obtain ⟨rfl, -⟩ := SlotRequest.ask.inj asks
      exact ⟨fun slot isParent => nomatch isParent⟩
  | member receiver? name _ =>
      cases receiver? with
      | none => cases asks
      | some receiver =>
          rw [request] at asks
          split at asks
          · obtain ⟨rfl, -⟩ := SlotRequest.ask.inj asks
            exact fits
          · cases asks
  | element array? _ =>
      cases array? with
      | none => cases asks
      | some array =>
          obtain ⟨rfl, -⟩ := SlotRequest.ask.inj asks
          exact fits
  | typeArgument generic? index _ =>
      cases generic? with
      | none => cases asks
      | some generic =>
          obtain ⟨rfl, -⟩ := SlotRequest.ask.inj asks
          exact fits.1
  | intern other _ =>
      obtain ⟨rfl, -⟩ := SlotRequest.ask.inj asks
      exact fits
  | redeclare slot? _ => cases slot? <;> cases asks

/-- An operation does to the slots what it does to the slots with index and children, which stay
consistent. -/
theorem SlotOperation.step (consistent : indexed.Consistent) (fits : operation.Fits indexed.table) :
    ((operation.request indexed.table).runIndexed indexed).2.Consistent ∧
      operation.run indexed.table =
        (((operation.request indexed.table).runIndexed indexed).1,
          ((operation.request indexed.table).runIndexed indexed).2.table) := by
  rw [run_eq fits]
  cases asks : operation.request indexed.table with
  | ask key declared =>
      refine ⟨consistent.intern key declared (has_parent fits asks), ?_⟩
      have same := consistent.intern_table key declared
      exact congrArg (fun result : SlotId × SlotTable => (some result.1, result.2)) same
  | declare slot declared =>
      refine ⟨consistent.redeclare slot declared, ?_⟩
      exact Prod.ext rfl (IndexedTable.redeclare_table indexed slot declared).symm
  | nothing => exact ⟨consistent, rfl⟩

/-- Every table grows under the operations that fit it. -/
theorem SlotOperation.grows (fits : operation.Fits table) : table.Grows (operation.run table).2 := by
  rw [run_eq fits]
  cases asks : operation.request table with
  | ask key declared => exact SlotTable.grows_intern declared (has_parent fits asks).inside
  | declare slot declared => exact SlotTable.grows_redeclare table slot declared
  | nothing => exact .refl table

/-- An operation keeps the keys of all slots. -/
theorem SlotOperation.keeps (fits : operation.Fits table) : table.Keeps (operation.run table).2 :=
  (grows fits).keeps

/-- The answer to an operation is the slot of the key that it asks for. -/
theorem SlotOperation.answer_eq (fits : operation.Fits table) :
    (operation.run table).1 =
      (operation.request table).key?.bind (operation.run table).2.get? := by
  rw [run_eq fits]
  cases operation.request table with
  | ask key declared => exact (SlotTable.get?_intern key declared table).symm
  | declare slot declared => rfl
  | nothing => rfl

/-- An operation that asks for a key gets a slot. -/
theorem SlotOperation.exists_answer (fits : operation.Fits table) {key : SlotKey}
    (asks : (operation.request table).key? = some key) :
    ∃ slot, (operation.run table).1 = some slot := by
  rw [run_eq fits]
  cases request : operation.request table with
  | ask other declared => exact ⟨_, rfl⟩
  | declare slot declared =>
      rw [request] at asks
      cases asks
  | nothing =>
      rw [request] at asks
      cases asks

end Steps

section Runs

open SlotTable

variable {operations early late : List SlotOperation}

/-- The last operation runs on the table that the others build. -/
theorem SlotTable.build_snoc (operations : List SlotOperation) (operation : SlotOperation) :
    build (operations ++ [operation]) = (operation.run (build operations)).2 :=
  List.foldl_concat ..

/-- If all operations fit, the first ones do. -/
theorem SlotTable.AllFit.of_append (fit : AllFit (early ++ late)) : AllFit early := by
  rintro before operation after rfl
  exact fit before operation (after ++ late) (by simp)

theorem SlotTable.allFit_nil : AllFit [] := by
  intro early operation late split
  simp at split

theorem SlotTable.AllFit.snoc {operation : SlotOperation} (fit : AllFit early)
    (fits : operation.Fits (build early)) : AllFit (early ++ [operation]) := by
  intro before other after split
  rcases List.eq_nil_or_concat' after with rfl | ⟨init, last, rfl⟩
  · obtain ⟨rfl, same⟩ := List.append_inj' split rfl
    obtain rfl := List.singleton_inj.mp same
    exact fits
  · rw [← List.cons_append, ← List.append_assoc] at split
    obtain ⟨isEarly, -⟩ := List.append_inj' split rfl
    exact fit before other init isEarly

/-- The last operation fits the table that the others build. -/
theorem SlotTable.AllFit.last {operation : SlotOperation} (fit : AllFit (early ++ [operation])) :
    operation.Fits (build early) :=
  fit early operation [] rfl

/-- The slots are those of the table with index and children, which is consistent at all times. -/
theorem SlotTable.AllFit.consistent (fit : AllFit operations) :
    (IndexedTable.build operations).Consistent ∧
      (IndexedTable.build operations).table = build operations := by
  induction operations using List.reverseRecOn with
  | nil => exact ⟨IndexedTable.consistent_empty, IndexedTable.table_empty⟩
  | append_singleton earlier operation ih =>
      obtain ⟨consistent, same⟩ := ih fit.of_append
      have fits := fit.last
      rw [← same] at fits
      obtain ⟨consistentAfter, step⟩ := SlotOperation.step consistent fits
      rw [IndexedTable.build, List.foldl_concat]
      refine ⟨consistentAfter, ?_⟩
      rw [build_snoc, ← same, step]
      rfl

/-- No slot of an earlier table gets another number or another key. -/
theorem SlotTable.AllFit.keeps (fit : AllFit (early ++ late)) :
    (build early).Keeps (build (early ++ late)) := by
  induction late using List.reverseRecOn with
  | nil =>
      rw [List.append_nil]
      exact .refl _
  | append_singleton later operation ih =>
      rw [← List.append_assoc] at fit ⊢
      rw [build_snoc]
      exact (ih fit.of_append).trans (SlotOperation.keeps fit.last)

/-- The slot that is the answer to an operation is the slot of the key from then on. -/
theorem SlotTable.AllFit.get?_of_answers (fit : AllFit operations) {key : SlotKey} {slot : SlotId}
    (answers : Answers operations key slot) : (build operations).get? key = some slot := by
  obtain ⟨early, operation, late, rfl, asks, isAnswer⟩ := answers
  have fits := fit early operation late rfl
  rw [SlotOperation.answer_eq fits, asks, Option.bind_some, ← build_snoc] at isAnswer
  rw [List.append_cons] at fit ⊢
  exact fit.keeps.get? isAnswer

end Runs

section Members

variable {table : SlotTable} {operation : SlotOperation}

/-- Members are derived from stable slots alone. -/
def SlotTable.StableMembers (table : SlotTable) : Prop :=
  ∀ ⦃slot receiver : SlotId⦄ ⦃name : String⦄, table.key? slot = some (.member receiver name) →
    ∃ key, table.key? receiver = some key ∧ key.isStable = true

/-- Members are asked for under stable receivers alone. -/
theorem SlotOperation.stable_of_asks (tame : ¬operation.IsRawMember) {receiver : SlotId}
    {name : String} {declared : FlowState}
    (asks : operation.request table = .ask (.member receiver name) declared) :
    ∃ key, table.key? receiver = some key ∧ key.isStable = true := by
  cases operation with
  | localVar id _ => cases asks
  | this => cases asks
  | member receiver? other _ =>
      cases receiver? with
      | none => cases asks
      | some known =>
          rw [request] at asks
          split at asks
          · obtain ⟨same, -⟩ := SlotRequest.ask.inj asks
            obtain ⟨rfl, -⟩ := SlotKey.member.inj same
            exact (Option.any_eq_true ..).mp ‹_›
          · cases asks
  | element array? _ => cases array? <;> cases asks
  | typeArgument generic? index _ => cases generic? <;> cases asks
  | intern key _ =>
      obtain ⟨rfl, -⟩ := SlotRequest.ask.inj asks
      exact (tame trivial).elim
  | redeclare slot? _ => cases slot? <;> cases asks

/-- Only the member operation asks for members, and it does so below stable slots. -/
theorem SlotTable.StableMembers.step (stable : table.StableMembers) (fits : operation.Fits table)
    (tame : ¬operation.IsRawMember) : StableMembers (operation.run table).2 := by
  have keeps := SlotOperation.keeps fits
  rw [SlotOperation.run_eq fits] at keeps ⊢
  intro slot receiver name isMember
  suffices ∃ key, table.key? receiver = some key ∧ key.isStable = true by
    obtain ⟨key, isKey, isStable⟩ := this
    exact ⟨key, keeps.key? isKey, isStable⟩
  cases asks : operation.request table with
  | ask key declared =>
      rw [asks] at isMember
      rcases key?_of_intern isMember with known | rfl
      · exact stable known
      · exact SlotOperation.stable_of_asks tame asks
  | declare other declared =>
      rw [asks] at isMember
      exact stable ((key?_redeclare table other declared slot).symm.trans isMember)
  | nothing =>
      rw [asks] at isMember
      exact stable isMember

/-- In a table built by fitting operations all members have stable receivers. -/
theorem SlotTable.AllFit.stableMembers {operations : List SlotOperation} (fit : AllFit operations)
    (tame : ∀ operation ∈ operations, ¬operation.IsRawMember) :
    (build operations).StableMembers := by
  induction operations using List.reverseRecOn with
  | nil =>
      intro slot receiver name isMember
      cases isMember
  | append_singleton earlier operation ih =>
      rw [build_snoc]
      exact (ih fit.of_append fun other member => tame other (List.mem_append_left _ member)).step
        fit.last (tame operation (by simp))

/-- All slots on the chain of a member are stable. -/
theorem SlotTable.StableMembers.derives (stable : table.StableMembers) {slot receiver : SlotId}
    {name : String} (isMember : table.key? slot = some (.member receiver name)) {above : SlotId}
    (derives : table.Derives above slot) :
    ∃ key, table.key? above = some key ∧ key.isStable = true := by
  induction derives using Relation.TransGen.head_induction_on with
  | single isParent =>
      obtain ⟨key, isKey, derived⟩ := isParent.key?
      obtain rfl := Option.some.inj (isMember.symm.trans isKey)
      obtain rfl := Option.some.inj derived
      exact stable isMember
  | head isParent _ ih =>
      obtain ⟨key, isKey, isStable⟩ := ih
      obtain ⟨other, isOther, derived⟩ := isParent.key?
      obtain rfl := Option.some.inj (isKey.symm.trans isOther)
      cases key with
      | member parent _ =>
          obtain rfl := Option.some.inj derived
          exact stable isKey
      | localVar _ => cases derived
      | this => cases derived
      | element _ => cases isStable
      | typeArgument _ _ => cases isStable

end Members

/-- An operation that fits the first table makes the second one of it. Members are asked for as
members. -/
def SlotTable.Turns (before after : SlotTable) : Prop :=
  ∃ operation : SlotOperation, operation.Fits before ∧ ¬operation.IsRawMember ∧
    after = (operation.run before).2

/-- Operations make the second table of the first one, and each of them fits the table that it is
given. -/
def SlotTable.Evolves : SlotTable → SlotTable → Prop := Relation.ReflTransGen SlotTable.Turns

section Evolution

open SlotTable

variable {table before after : SlotTable}

/-- A table that evolves grows. -/
theorem SlotTable.Evolves.grows (evolves : before.Evolves after) : before.Grows after := by
  induction evolves with
  | refl => exact .refl before
  | tail _ turns ih =>
      obtain ⟨operation, fits, -, rfl⟩ := turns
      exact ih.trans (SlotOperation.grows fits)

/-- What evolves from the empty table was built by operations that fit. -/
theorem SlotTable.Evolves.exists_build (evolves : SlotTable.empty.Evolves table) :
    ∃ operations, AllFit operations ∧ (∀ operation ∈ operations, ¬operation.IsRawMember) ∧
      build operations = table := by
  induction evolves with
  | refl => exact ⟨[], allFit_nil, fun _ member => (List.not_mem_nil member).elim, rfl⟩
  | tail _ turns ih =>
      obtain ⟨operations, fit, tame, rfl⟩ := ih
      obtain ⟨operation, fits, notRaw, rfl⟩ := turns
      refine ⟨operations ++ [operation], fit.snoc fits, ?_, build_snoc operations operation⟩
      intro other member
      rcases List.mem_append.mp member with early | last
      · exact tame other early
      · exact List.mem_singleton.mp last ▸ notRaw

/-- Looking for a slot is an operation. Whoever looks for a member has found a stable slot. -/
theorem SlotTable.evolves_intern {key : SlotKey} (declared : FlowState)
    (older : table.Has key.parent?)
    (stable : ∀ parent name, key = .member parent name →
      (table.key? parent).any SlotKey.isStable = true) :
    table.Evolves (intern key declared table).2 := by
  apply Relation.ReflTransGen.single
  cases key with
  | member parent name =>
      refine ⟨.member (some parent) name declared, older, id, ?_⟩
      rw [SlotOperation.run, SlotTable.member, if_pos (stable parent name rfl)]
      rfl
  | localVar known => exact ⟨.intern (.localVar known) declared, older, id, rfl⟩
  | this => exact ⟨.intern .this declared, older, id, rfl⟩
  | element parent => exact ⟨.intern (.element parent) declared, older, id, rfl⟩
  | typeArgument parent index =>
      exact ⟨.intern (.typeArgument parent index) declared, older, id, rfl⟩

/-- Declaring a slot of the table anew is an operation. -/
theorem SlotTable.evolves_redeclare {slot : SlotId} (inside : slot < table.size)
    (declared : FlowState) : table.Evolves (table.redeclare slot declared) :=
  .single ⟨.redeclare (some slot) declared, ⟨fun _ same => Option.some.inj same ▸ inside⟩, id, rfl⟩

end Evolution

/-- The slots of a table form a forest, and its index, its lists of children, the walk below a slot
and the chains of parents agree on it. -/
theorem slot_operations_build_forest (operations : List SlotOperation)
    (fit : SlotTable.AllFit operations) :
    let table := SlotTable.build operations
    let indexed := IndexedTable.build operations
    indexed.table = table ∧
    (∀ key slot, indexed.index key = some slot ↔ table.key? slot = some key) ∧
    (∀ key, table.get? key = indexed.index key) ∧
    (∀ early operation late, operations = early ++ operation :: late →
      let before := SlotTable.build early
      (operation.run before).1 =
          ((operation.request before).runIndexed (IndexedTable.build early)).1 ∧
        ((operation.request before).key? = none → (operation.run before).1 = none) ∧
        ∀ key, (operation.request before).key? = some key →
          ∃ slot, (operation.run before).1 = some slot ∧ indexed.index key = some slot) ∧
    (∀ key slot, SlotTable.Answers operations key slot →
      ∀ key' slot', SlotTable.Answers operations key' slot' → (key = key' ↔ slot = slot')) ∧
    (∀ early late, operations = early ++ late → ∀ key slot,
      (SlotTable.build early).key? slot = some key → table.key? slot = some key) ∧
    (∀ parent child, table.IsParent parent child → parent < child) ∧
    (∀ slot, (indexed.children slot).Nodup ∧
      ∀ child, child ∈ indexed.children slot ↔ table.IsParent slot child) ∧
    (∀ slot, ∃ visits found, indexed.walk slot visits = ⟨[], found⟩ ∧ found.Nodup ∧ slot ∉ found ∧
      (∀ other, other ∈ found ↔ table.Derives slot other) ∧
      found.Perm (table.descendants slot)) ∧
    ((∀ operation ∈ operations, ¬operation.IsRawMember) → ∀ slot receiver name,
      table.key? slot = some (.member receiver name) → ∀ above, table.Derives above slot →
        ∃ key, table.key? above = some key ∧ key.isStable = true) := by
  intro table indexed
  obtain ⟨consistent, same⟩ : indexed.Consistent ∧ indexed.table = table := fit.consistent
  have answered : ∀ key slot, SlotTable.Answers operations key slot →
      indexed.index key = some slot := by
    intro key slot answers
    rw [← consistent.get?_table, same]
    exact fit.get?_of_answers answers
  refine ⟨same, ?_, ?_, ?_, ?_, ?_, ?_, ?_, ?_, ?_⟩
  · exact same ▸ consistent.index
  · exact same ▸ consistent.get?_table
  · rintro early operation late split
    have fits := fit early operation late split
    obtain ⟨consistentBefore, sameBefore⟩ := (split ▸ fit).of_append.consistent
    refine ⟨?_, ?_, ?_⟩
    · have step := SlotOperation.step consistentBefore (sameBefore ▸ fits)
      rw [sameBefore] at step
      exact congrArg Prod.fst step.2
    · intro asksNothing
      rw [SlotOperation.answer_eq fits, asksNothing]
      rfl
    · intro key asks
      obtain ⟨slot, isAnswer⟩ := SlotOperation.exists_answer fits asks
      exact ⟨slot, isAnswer, answered key slot ⟨early, operation, late, split, asks, isAnswer⟩⟩
  · intro key slot answers key' slot' answers'
    have isSlot := answered key slot answers
    have isSlot' := answered key' slot' answers'
    constructor
    · rintro rfl
      exact Option.some.inj (isSlot.symm.trans isSlot')
    · rintro rfl
      have isKey := (consistent.index key slot).mp isSlot
      exact Option.some.inj (isKey.symm.trans ((consistent.index key' slot).mp isSlot'))
  · rintro early late rfl key slot isKey
    exact fit.keeps.key? isKey
  · exact fun parent child isParent => (same ▸ consistent.rooted).older isParent
  · exact fun slot => ⟨consistent.nodup_children slot, fun child =>
      same ▸ consistent.mem_children⟩
  · intro slot
    obtain ⟨visits, found, ends, nodup, isFound⟩ := consistent.walk_ends slot
    rw [same] at isFound
    have rooted : table.Rooted := same ▸ consistent.rooted
    refine ⟨visits, found, ends, nodup, fun member => ?_, isFound, ?_⟩
    · exact Nat.lt_irrefl _ (rooted.lt_of_derives ((isFound slot).mp member))
    · refine (List.perm_ext_iff_of_nodup nodup (table.nodup_descendants slot)).mpr fun other => ?_
      rw [isFound, rooted.mem_descendants_iff]
  · exact fun tame slot receiver name isMember above derives =>
      (fit.stableMembers tame).derives isMember derives

/-- An array that is a member of `this`, with its elements. -/
theorem slot_operations_build_member :
    let operations : List SlotOperation :=
      [.this, .member (some 0) "items" .notNull, .element (some 1) .maybeNull,
        .redeclare (some 1) .maybeNull]
    SlotTable.AllFit operations ∧ ∃ visits found,
      (IndexedTable.build operations).walk 0 visits = ⟨[], found⟩ ∧ found.Perm [1, 2] := by
  intro operations
  have root : SlotTable.AllFit [.this] := SlotTable.allFit_nil.snoc trivial
  have array : SlotTable.AllFit [.this, .member (some 0) "items" .notNull] :=
    root.snoc ⟨fun slot isSlot => by cases isSlot; decide +kernel⟩
  have elements : SlotTable.AllFit
      [.this, .member (some 0) "items" .notNull, .element (some 1) .maybeNull] :=
    array.snoc ⟨fun slot isSlot => by cases isSlot; decide +kernel⟩
  have fit : SlotTable.AllFit operations :=
    elements.snoc ⟨fun slot isSlot => by cases isSlot; decide +kernel⟩
  obtain ⟨-, -, -, -, -, -, -, -, walks, -⟩ := slot_operations_build_forest operations fit
  obtain ⟨visits, found, ends, -, -, -, same⟩ := walks 0
  exact ⟨fit, visits, found, ends, same.trans (List.Perm.of_eq (by decide +kernel))⟩

end NullFlow
