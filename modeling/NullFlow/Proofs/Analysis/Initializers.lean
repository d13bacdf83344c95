import NullFlow.Proofs.Analysis.StrongUpdates
import NullFlow.Proofs.Code.Pruning
/-!
Object initializers. Whatever the nesting of the entries, their values are evaluated one after the
other, and each of them becomes a seed for the member at the end of its path. If no member is named
twice in a list of entries, the paths differ, and every seed stays where it was planted.
-/

namespace NullFlow

/-- An entry of an object initializer with a value: the path of members that it is for, the declared
type of the last one, and the value. -/
structure Leaf (Child : Type) where
  path : List (String × FlowState)
  declared? : Option Ty
  value : Child

def Leaf.steps {Child : Type} (leaf : Leaf Child) : List SlotStep := memberSteps leaf.path

def Leaf.map {Child Other : Type} (change : Child → Other) (leaf : Leaf Child) : Leaf Other :=
  ⟨leaf.path, leaf.declared?, change leaf.value⟩

section Evaluation

variable (context : Context) {Child : Type}

/-- The step to a member of an object of the type, with the declared state of the member. -/
def memberStep (owner? : Option Ty) (member : Member) : String × FlowState :=
  (member.name, ((context.memberType? owner? member).map Ty.declaredState).getD .maybeNull)

/-- The values in the initializer of an object of the type, below a path of members. -/
def leavesOf (owner? : Option Ty) (path : List (String × FlowState)) :
    List (Initializer Child) → List (Leaf Child)
  | [] => []
  | .value member value :: rest =>
      ⟨path ++ [memberStep context owner? member], context.memberType? owner? member, value⟩ ::
        leavesOf owner? path rest
  | .nested member entries :: rest =>
      leavesOf (context.memberType? owner? member) (path ++ [memberStep context owner? member])
        entries ++ leavesOf owner? path rest

/-- Evaluates the value of an entry and checks that the member can hold it. -/
def evaluateLeaf (leaf : Leaf Part) (store : Store) : Analysis (Seed × Store) := do
  let (value, store) ← leaf.value.value store
  if let some target := leaf.declared? then
    context.checkConversion value target leaf.value.span .assignment
  return (⟨leaf.path, value.state⟩, store)

/-- Evaluates entries one after the other. -/
def evaluateLeaves : List (Leaf Part) → Store → Analysis (List Seed × Store)
  | [], store => return ([], store)
  | leaf :: rest, store => do
      let (seed, store) ← evaluateLeaf context leaf store
      let (seeds, store) ← evaluateLeaves rest store
      return (seed :: seeds, store)

/-- The values of initializers may be evaluated in two parts. -/
theorem evaluateLeaves_append (early late : List (Leaf Part)) (store : Store) :
    evaluateLeaves context (early ++ late) store = (do
      let (first, store) ← evaluateLeaves context early store
      let (others, store) ← evaluateLeaves context late store
      return (first ++ others, store)) := by
  induction early generalizing store with
  | nil => simp [evaluateLeaves]
  | cons leaf rest ih =>
      simp only [List.cons_append, evaluateLeaves, ih, bind_assoc, pure_bind]

/-- Nested entries are evaluated in the order of their values. -/
theorem seedMembers_eq : ∀ (entries : List (Initializer Part)) (owner? : Option Ty)
    (path : List (String × FlowState)) (store : Store),
    seedMembers context owner? path entries store =
      evaluateLeaves context (leavesOf context owner? path entries) store
  | [], _, _, _ => by
      rw [seedMembers, leavesOf, evaluateLeaves]
  | .value member part :: rest, owner?, path, store => by
      rw [seedMembers, leavesOf, evaluateLeaves, evaluateLeaf]
      simp only [seedMembers_eq rest, bind_assoc, memberStep]
      refine bind_congr fun evaluated => ?_
      cases context.memberType? owner? member with
      | none => rfl
      | some target => rfl
  | .nested member entries :: rest, owner?, path, store => by
      rw [seedMembers, leavesOf, evaluateLeaves_append]
      simp only [seedMembers_eq rest, seedMembers_eq entries]
      rfl

/-- A leaf of an initializer plants the state of its value. -/
theorem evaluateLeaf_answer (leaf : Leaf Part) (store : Store) (session : Session) :
    let value := leaf.value.value store session
    (evaluateLeaf context leaf store session).1 = (⟨leaf.path, value.1.1.state⟩, value.1.2) := by
  obtain ⟨path, declared?, part⟩ := leaf
  cases declared? <;> rfl

/-- The value of an entry becomes its seed. It is evaluated after the values of all earlier entries. -/
theorem seed_of_leaf (early : List (Leaf Part)) (leaf : Leaf Part) (late : List (Leaf Part))
    (store : Store) (session : Session) :
    let before := evaluateLeaves context early store session
    let value := leaf.value.value before.1.2 before.2
    ⟨leaf.path, value.1.1.state⟩ ∈
      (evaluateLeaves context (early ++ leaf :: late) store session).1.1 := by
  intro before value
  have isSeed : (evaluateLeaf context leaf before.1.2 before.2).1.1 = ⟨leaf.path, value.1.1.state⟩ :=
    congrArg Prod.fst (evaluateLeaf_answer context leaf before.1.2 before.2)
  rw [evaluateLeaves_append, ← isSeed]
  exact List.mem_append_right _ List.mem_cons_self

/-- Seeds are planted where their initializers stand. -/
theorem steps_of_seeds (leaves : List (Leaf Part)) (store : Store) (session : Session) :
    (evaluateLeaves context leaves store session).1.1.map Seed.steps = leaves.map Leaf.steps := by
  induction leaves generalizing store session with
  | nil => rfl
  | cons leaf rest ih =>
      have isAnswer := evaluateLeaf_answer context leaf store session
      exact congrArg₂ List.cons (congrArg (fun answer => answer.1.steps) isAnswer) (ih _ _)

end Evaluation

section Names

variable (context : Context) {Child Other : Type}

def Initializer.name : Initializer Child → String
  | .value member _ => member.name
  | .nested member _ => member.name

/-- No list of entries names a member twice. -/
def DistinctNames : List (Initializer Child) → Prop
  | [] => True
  | .value member _ :: rest => member.name ∉ rest.map Initializer.name ∧ DistinctNames rest
  | .nested member entries :: rest =>
      member.name ∉ rest.map Initializer.name ∧ DistinctNames entries ∧ DistinctNames rest

/-- A path goes on with the name of the next member. -/
theorem memberSteps_snoc (owner? : Option Ty) (path : List (String × FlowState))
    (selected : Member) : memberSteps (path ++ [memberStep context owner? selected]) =
      memberSteps path ++ [.member selected.name] :=
  List.map_append ..

/-- The path of a value goes through a member that the list of entries names. -/
theorem steps_of_leaf : ∀ {entries : List (Initializer Child)} {owner? : Option Ty}
    {path : List (String × FlowState)} {leaf : Leaf Child},
    leaf ∈ leavesOf context owner? path entries →
    ∃ name ∈ entries.map Initializer.name, ∃ rest,
      leaf.steps = memberSteps path ++ .member name :: rest
  | [], _, _, _, member => by
      rw [leavesOf] at member
      cases member
  | .value selected value :: rest, owner?, path, leaf, member => by
      rw [leavesOf] at member
      rcases List.mem_cons.mp member with rfl | later
      · exact ⟨selected.name, List.mem_cons_self, [], memberSteps_snoc ..⟩
      · obtain ⟨name, named, steps⟩ := steps_of_leaf later
        exact ⟨name, List.mem_cons_of_mem _ named, steps⟩
  | .nested selected entries :: rest, owner?, path, leaf, member => by
      rw [leavesOf] at member
      rcases List.mem_append.mp member with inside | later
      · obtain ⟨name, -, steps, isSteps⟩ := steps_of_leaf inside
        refine ⟨selected.name, List.mem_cons_self, .member name :: steps, ?_⟩
        rw [isSteps, memberSteps_snoc, List.append_assoc]
        rfl
      · obtain ⟨name, named, steps⟩ := steps_of_leaf later
        exact ⟨name, List.mem_cons_of_mem _ named, steps⟩

/-- Paths that part at different members stay apart. -/
theorem steps_differ {path first second : List SlotStep} {name other : String}
    (differ : name ≠ other) : path ++ .member name :: first ≠ path ++ .member other :: second := by
  intro same
  have heads := (List.cons.inj (List.append_cancel_left same)).1
  exact differ (SlotStep.member.inj heads)

/-- If no list of entries names a member twice, the paths of the values differ. -/
theorem leaves_differ : ∀ {entries : List (Initializer Child)}, DistinctNames entries →
    ∀ (owner? : Option Ty) (path : List (String × FlowState)),
      (leavesOf context owner? path entries).Pairwise fun leaf later => leaf.steps ≠ later.steps
  | [], _, _, _ => by
      rw [leavesOf]
      exact .nil
  | .value selected value :: rest, distinct, owner?, path => by
      rw [DistinctNames] at distinct
      obtain ⟨isNew, distinctRest⟩ := distinct
      rw [leavesOf]
      refine .cons (fun later inRest => ?_) (leaves_differ distinctRest owner? path)
      obtain ⟨name, named, steps, isSteps⟩ := steps_of_leaf context inRest
      rw [isSteps, Leaf.steps, memberSteps_snoc]
      exact steps_differ fun same => isNew (same ▸ named)
  | .nested selected entries :: rest, distinct, owner?, path => by
      rw [DistinctNames] at distinct
      obtain ⟨isNew, distinctInside, distinctRest⟩ := distinct
      rw [leavesOf]
      -- Paths into the nested entries and past them part at the member with the nested entries.
      refine List.pairwise_append.mpr
        ⟨leaves_differ distinctInside _ _, leaves_differ distinctRest owner? path, ?_⟩
      intro leaf inside later inRest
      obtain ⟨_, -, first, isFirst⟩ := steps_of_leaf context inside
      obtain ⟨name, named, second, isSecond⟩ := steps_of_leaf context inRest
      rw [isFirst, isSecond, memberSteps_snoc, List.append_assoc]
      exact steps_differ fun same => isNew (same ▸ named)

/-- A change of the values of initializers leaves their places alone. -/
theorem leavesOf_map (change : Child → Other) : ∀ (entries : List (Initializer Child))
    (owner? : Option Ty) (path : List (String × FlowState)),
    leavesOf context owner? path (mapInitializers change entries) =
      (leavesOf context owner? path entries).map (Leaf.map change)
  | [], _, _ => by
      rw [mapInitializers, leavesOf, leavesOf]
      rfl
  | .value selected value :: rest, owner?, path => by
      rw [mapInitializers, Initializer.map, leavesOf, leavesOf, leavesOf_map change rest]
      rfl
  | .nested selected entries :: rest, owner?, path => by
      rw [mapInitializers, Initializer.map, leavesOf, leavesOf, leavesOf_map change rest,
        leavesOf_map change entries, List.map_append]

end Names

namespace Store

section Seeds

variable {table final : SlotTable} {store : Store} {slot : SlotId}

/-- Below a stable place every path of members leads to a slot. -/
theorem exists_of_path (path : List (String × FlowState)) {start? : Option SlotId}
    (stable : table.Stable start?) : ∃ place,
      (path.foldlM (fun place step => SlotTable.member place step.1 step.2) start? table).1 =
        some place := by
  induction path generalizing table start? with
  | nil =>
      obtain ⟨start, isPlace, -⟩ := stable
      exact ⟨start, isPlace⟩
  | cons step rest ih => exact ih (stable.member step.1 step.2)

/-- A planted seed is found along its path. -/
theorem plant_reaches (live : store.Live) (stable : table.Stable (some slot)) {seed : Seed}
    (keeps : (store.plant slot seed table).2.Keeps final) :
    ∃ place, final.trace seed.steps slot = some place ∧
      (store.plant slot seed table).1.explicit (some place) = some seed.state := by
  obtain ⟨place, found⟩ := exists_of_path seed.path stable
  obtain ⟨start, same, traced⟩ := trace_of_path keeps found
  obtain rfl := Option.some.inj same
  refine ⟨place, traced, ?_⟩
  change (store.assign _ seed.state).explicit (some place) = some seed.state
  rw [found, explicit_assign live, if_pos rfl]

/-- Every seed is recorded below a stable place, and the later ones leave it alone. -/
theorem plants_reach (rooted : final.Rooted) {seeds : List Seed} (live : store.Live)
    (stable : table.Stable (some slot))
    (keeps : (seeds.foldlM (plant slot) store table).2.Keeps final)
    (differ : seeds.Pairwise fun seed later => seed.steps ≠ later.steps) :
    ∀ seed ∈ seeds, ∃ place, final.trace seed.steps slot = some place ∧
      (seeds.foldlM (plant slot) store table).1.explicit (some place) = some seed.state := by
  induction seeds generalizing table store with
  | nil =>
      intro seed member
      cases member
  | cons first rest ih =>
      obtain ⟨differFirst, differRest⟩ := List.pairwise_cons.mp differ
      have keepsFirst := (plants_keep rest slot _ _).trans keeps
      have liveFirst := (live.plant slot first).answer table
      refine List.forall_mem_cons.mpr ⟨?_, ih liveFirst ?_ keeps differRest⟩
      · obtain ⟨place, traced, recorded⟩ := plant_reaches live stable keepsFirst
        refine ⟨place, traced, ?_⟩
        refine (explicit_plants liveFirst keeps fun later inRest found => ?_).trans recorded
        exact differFirst later inRest (rooted.trace_injective traced found)
      · exact stable.keeps (plant_keeps slot store first table)

end Seeds

section Members

variable {table : SlotTable} {store : Store} {slot : SlotId}

/-- After a write to a stable place the members that the value has seeds for are known. -/
theorem explicit_write_seed (rooted : table.Rooted) (inside : slot < table.size) (live : store.Live)
    (stable : table.Stable (some slot)) (value : Value)
    (differ : value.seeds.Pairwise fun seed later => seed.steps ≠ later.steps) :
    let after := store.write (some slot) value table
    ∀ seed ∈ value.seeds, ∃ place, after.2.trace seed.steps slot = some place ∧
      after.1.explicit (some place) = some seed.state := by
  intro after
  obtain ⟨marked, before, changes, isWrite, -⟩ := write_plants rooted inside live value
  have rootedAfter : after.2.Rooted := (write_below rooted inside live value).rooted
  rw [show after = _ from isWrite] at rootedAfter ⊢
  exact plants_reach rootedAfter changes.live (stable.keeps changes.keeps) (.refl _) differ

/-- Steps inside a type lead past all members. -/
theorem follow_ne_below_member (rooted : table.Rooted) {name : String} {place other : SlotId}
    (isMember : table.get? (.member slot name) = some place) (spans : table.Spans place other)
    (steps : List TyStep) : table.follow steps slot ≠ some other := by
  have isKey := SlotTable.key?_of_get? isMember
  have isParent : table.IsParent slot place := SlotTable.isParent_of_key? isKey rfl
  rw [SlotTable.follow_eq_trace]
  -- The last step leads from a slot that is at or below the member as well.
  induction steps using List.reverseRecOn generalizing other with
  | nil =>
      intro found
      obtain rfl := Option.some.inj found
      exact Nat.lt_irrefl _ (rooted.lt_of_derives (isParent.derives spans))
  | append_singleton steps step ih =>
      intro found
      rw [List.map_append] at found
      obtain ⟨parent, toParent, isOther⟩ := SlotTable.key?_of_trace found
      rcases spans with rfl | below
      · have sameKey : (SlotStep.member name).key slot = SlotStep.key parent (.inside step) :=
          Option.some.inj (isKey.symm.trans isOther)
        cases (SlotStep.key_injective sameKey).2
      · obtain ⟨between, isBetween, spans⟩ := SlotTable.derives_iff.mp below
        have same := SlotTable.isParent_of_key? isOther (SlotStep.key_parent? parent _)
        obtain rfl : between = parent := Option.some.inj (isBetween.symm.trans same)
        exact ih spans toParent

/-- After a write nothing is known of members that the value has no seeds for, nor of what is derived
from them. -/
theorem explicit_write_member (rooted : table.Rooted) (inside : slot < table.size)
    (live : store.Live) (within : store.Within table) (value : Value) {name : String}
    {place other : SlotId} :
    let after := store.write (some slot) value table
    after.2.get? (.member slot name) = some place → after.2.Spans place other →
      ¬value.Seeds after.2 slot other → after.1.explicit (some other) = none := by
  intro after isMember spans unseeded
  have changes : ChangesBelow slot table after.2 store after.1 := write_below rooted inside live value
  have unmarked : ¬value.Marks after.2 slot other := by
    rintro ⟨_, steps, _, -, -, -, -, found⟩
    exact follow_ne_below_member changes.rooted isMember spans steps found
  have derives : after.2.Derives slot other :=
    (SlotTable.isParent_of_key? (SlotTable.key?_of_get? isMember) rfl).derives spans
  have younger : other ≠ slot := Nat.ne_of_gt (changes.rooted.lt_of_derives derives)
  rw [explicit_write_other rooted inside live value other unmarked unseeded, explicit_reset live,
    if_neg younger]
  split
  · rfl
  · rename_i kept
    cases entry : store.explicit (some other) with
    | none => rfl
    | some state =>
        have old : other < table.size := within other state entry
        have before := changes.keeps.derives_of_lt changes.rooted old derives
        exact absurd (rooted.mem_descendants_iff.mpr before) kept

end Members

end Store

end NullFlow
