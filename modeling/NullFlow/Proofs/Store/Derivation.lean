import Mathlib.Data.List.Induction
import Mathlib.Logic.Relation
import NullFlow.Proofs.Store.Keys
import NullFlow.Proofs.Types.Positions
/-!
Derivation of slots. The chain of parents of a slot ends, because a slot is younger than its parent.
The descendants that a table finds are the slots whose chain passes through the slot, and a slot that
is derived from another one is found by the steps that lead to it.
-/

namespace NullFlow.SlotTable

/-- The second slot is derived from the first one directly. -/
def IsParent (table : SlotTable) (parent child : SlotId) : Prop := table.parent? child = some parent

/-- The chain of parents of the second slot passes through the first one. -/
def Derives (table : SlotTable) : SlotId → SlotId → Prop := Relation.TransGen table.IsParent

/-- The second slot is the first one or derived from it. -/
def Spans (table : SlotTable) (slot other : SlotId) : Prop :=
  other = slot ∨ table.Derives slot other

section Chains

variable {table before after : SlotTable} {slot other child : Nat}

/-- A slot with a parent has a key that names it. -/
theorem IsParent.key? (isParent : table.IsParent slot child) :
    ∃ key, table.key? child = some key ∧ key.parent? = some slot :=
  Option.bind_eq_some_iff.mp isParent

/-- A slot is the parent that its key names. -/
theorem isParent_of_key? {key : SlotKey} (isKey : table.key? child = some key)
    (derived : key.parent? = some slot) : table.IsParent slot child :=
  Option.bind_eq_some_iff.mpr ⟨key, isKey, derived⟩

theorem IsParent.lt_size (isParent : table.IsParent slot child) : child < table.size := by
  obtain ⟨key, isKey, -⟩ := isParent.key?
  exact lt_size_of_key? isKey

/-- Derived slots lie in the table. -/
theorem Derives.lt_size (derives : table.Derives slot child) : child < table.size := by
  cases derives with
  | single isParent => exact isParent.lt_size
  | tail _ isParent => exact isParent.lt_size

/-- What is derived from a slot is younger. -/
theorem Rooted.lt_of_derives (rooted : table.Rooted) (derives : table.Derives slot child) :
    slot < child := by
  induction derives with
  | single isParent => exact rooted.older isParent
  | tail _ isParent ih => exact Nat.lt_trans ih (rooted.older isParent)

/-- A chain that passes through a slot starts there or at a slot that is derived from it. -/
theorem derives_iff : table.Derives slot child ↔
    ∃ parent, table.IsParent parent child ∧ (parent = slot ∨ table.Derives slot parent) := by
  constructor
  · intro derives
    cases derives with
    | single isParent => exact ⟨slot, isParent, .inl rfl⟩
    | tail below isParent => exact ⟨_, isParent, .inr below⟩
  · rintro ⟨parent, isParent, rfl | below⟩
    · exact .single isParent
    · exact .tail below isParent

/-- Of two slots on one chain, one is derived from the other. -/
theorem Derives.comparable (ofSlot : table.Derives slot child) (ofOther : table.Derives other child) :
    slot = other ∨ table.Derives slot other ∨ table.Derives other slot := by
  induction ofSlot with
  | single isParent =>
      obtain ⟨parent, isOther, at_ | below⟩ := derives_iff.mp ofOther
      · exact .inl (Option.some.inj (isParent.symm.trans (at_ ▸ isOther)))
      · exact .inr (.inr (Option.some.inj (isOther.symm.trans isParent) ▸ below))
  | tail below isParent ih =>
      obtain ⟨parent, isOther, at_ | ofParent⟩ := derives_iff.mp ofOther
      · exact .inr (.inl (at_ ▸ Option.some.inj (isParent.symm.trans isOther) ▸ below))
      · exact ih (Option.some.inj (isOther.symm.trans isParent) ▸ ofParent)

theorem Keeps.isParent (keeps : before.Keeps after) (isParent : before.IsParent slot child) :
    after.IsParent slot child := by
  obtain ⟨key, isKey, derived⟩ := isParent.key?
  exact isParent_of_key? (keeps.key? isKey) derived

/-- A smaller table of the same slots is rooted as well. -/
theorem Keeps.rooted (keeps : before.Keeps after) (rooted : after.Rooted) : before.Rooted :=
  ⟨fun isParent => rooted.older (keeps.isParent isParent)⟩

/-- A derived slot stays derived as long as slots keep their keys. -/
theorem Keeps.derives (keeps : before.Keeps after) (derives : before.Derives slot child) :
    after.Derives slot child :=
  Relation.TransGen.mono (fun _ _ => keeps.isParent) _ _ derives

theorem Spans.refl (table : SlotTable) (slot : SlotId) : table.Spans slot slot := .inl rfl

/-- What a slot of the table spans lies in the table. -/
theorem Spans.lt_size (spans : table.Spans slot child) (inside : slot < table.size) :
    child < table.size := by
  rcases spans with rfl | derives
  · exact inside
  · exact derives.lt_size

theorem Keeps.spans (keeps : before.Keeps after) (spans : before.Spans slot child) :
    after.Spans slot child :=
  spans.imp_right keeps.derives

/-- What is one step below a span is derived. -/
theorem Spans.derives (spans : table.Spans slot child) (isParent : table.IsParent child other) :
    table.Derives slot other := by
  rcases spans with rfl | below
  · exact .single isParent
  · exact .tail below isParent

theorem IsParent.derives (isParent : table.IsParent slot child) (spans : table.Spans child other) :
    table.Derives slot other := by
  rcases spans with rfl | below
  · exact .single isParent
  · exact .head isParent below

/-- Old slots keep their parents. -/
theorem Keeps.isParent_of_lt (keeps : before.Keeps after) (old : child < before.size)
    (isParent : after.IsParent slot child) : before.IsParent slot child := by
  obtain ⟨key, isKey, derived⟩ := isParent.key?
  have kept := keeps.key? (key?_eq_getElem old)
  refine isParent_of_key? (key?_eq_getElem old) ?_
  rwa [← Option.some.inj (isKey.symm.trans kept)]

/-- New slots do not come between a slot and those that were derived from it. -/
theorem Keeps.derives_of_lt (keeps : before.Keeps after) (rooted : after.Rooted)
    (old : child < before.size) (derives : after.Derives slot child) :
    before.Derives slot child := by
  induction derives with
  | single isParent => exact .single (keeps.isParent_of_lt old isParent)
  | tail _ isParent ih =>
      exact .tail (ih (Nat.lt_trans (rooted.older isParent) old)) (keeps.isParent_of_lt old isParent)

end Chains

section Descendants

variable {table : SlotTable} {slot child : Nat}

/-- The descendants of a slot are those whose chain of parents passes through it. -/
theorem Rooted.mem_descendants_iff (rooted : table.Rooted) :
    child ∈ table.descendants slot ↔ table.Derives slot child := by
  induction child using Nat.strongRecOn with
  | ind child ih =>
      rw [descendants_eq, mem_derived, derives_iff]
      constructor
      · rintro ⟨inside, parent, isParent, at_ | found⟩
        · exact ⟨parent, isParent, .inl at_⟩
        · have older := rooted.older isParent
          have member := (mem_derived_of_lt table slot older (Nat.le_of_lt inside)).mpr found
          exact ⟨parent, isParent, .inr ((ih parent older).mp member)⟩
      · rintro ⟨parent, isParent, at_ | below⟩
        · exact ⟨isParent.lt_size, parent, isParent, .inl at_⟩
        · have older := rooted.older isParent
          have member := (ih parent older).mpr below
          have inside := isParent.lt_size
          refine ⟨inside, parent, isParent, .inr ?_⟩
          exact (mem_derived_of_lt table slot older (Nat.le_of_lt inside)).mp member

theorem derived_ascending (table : SlotTable) (slot : SlotId) (bound : Nat) :
    (derived table slot bound).Pairwise (· < ·) := by
  induction bound with
  | zero => exact .nil
  | succ bound ih =>
      have longer : (derived table slot bound ++ [bound]).Pairwise (· < ·) := by
        refine List.pairwise_append.mpr ⟨ih, List.pairwise_singleton _ _, ?_⟩
        intro earlier member last isLast
        obtain rfl := List.mem_singleton.mp isLast
        exact mem_derived_lt member
      rw [derived_succ]
      split
      · split
        · exact longer
        · exact ih
      · exact ih

/-- No slot is listed twice among the descendants. -/
theorem nodup_descendants (table : SlotTable) (slot : SlotId) : (table.descendants slot).Nodup :=
  (derived_ascending table slot table.size).imp Nat.ne_of_lt

end Descendants

end NullFlow.SlotTable

namespace NullFlow

/-- A step from a slot to one that is derived from it directly. -/
inductive SlotStep where
  | member (name : String)
  | inside (step : TyStep)
deriving DecidableEq

namespace SlotStep

/-- The key of the slot that the step leads to. -/
def key (slot : SlotId) : SlotStep → SlotKey
  | member name => .member slot name
  | inside step => step.key slot

theorem key_parent? (slot : SlotId) (step : SlotStep) : (step.key slot).parent? = some slot := by
  cases step with
  | member name => rfl
  | inside step => exact step.key_parent? slot

/-- Different steps, or steps from different slots, have different keys. -/
theorem key_injective {slot other : SlotId} {step step' : SlotStep}
    (same : step.key slot = step'.key other) : slot = other ∧ step = step' := by
  cases step with
  | member name =>
      cases step' with
      | member name' =>
          obtain ⟨sameSlot, rfl⟩ := SlotKey.member.inj same
          exact ⟨sameSlot, rfl⟩
      | inside step' => cases step' <;> cases same
  | inside step =>
      cases step' with
      | member name' => cases step <;> cases same
      | inside step' =>
          obtain ⟨sameSlot, rfl⟩ := TyStep.key_injective same
          exact ⟨sameSlot, rfl⟩

end SlotStep

namespace SlotTable

/-- The slot at the end of the steps. -/
def trace (table : SlotTable) : List SlotStep → SlotId → Option SlotId
  | [], slot => some slot
  | step :: steps, slot => (table.get? (step.key slot)).bind (table.trace steps)

variable {table before after : SlotTable} {slot child : Nat} {steps others : List SlotStep}

/-- A path is traced in two parts. -/
theorem trace_append (steps others : List SlotStep) (slot : SlotId) :
    table.trace (steps ++ others) slot = (table.trace steps slot).bind (table.trace others) := by
  induction steps generalizing slot with
  | nil => rfl
  | cons step rest ih =>
      rw [List.cons_append, trace, trace, Option.bind_assoc]
      exact Option.bind_congr fun child _ => ih child

/-- The last step leads from a slot to a slot that is derived from it. -/
theorem key?_of_trace {step : SlotStep} (found : table.trace (steps ++ [step]) slot = some child) :
    ∃ parent, table.trace steps slot = some parent ∧ table.key? child = some (step.key parent) := by
  rw [trace_append] at found
  obtain ⟨parent, isParent, last⟩ := Option.bind_eq_some_iff.mp found
  obtain ⟨other, isChild, same⟩ := Option.bind_eq_some_iff.mp last
  obtain rfl := Option.some.inj same
  exact ⟨parent, isParent, key?_of_get? isChild⟩

/-- Steps lead to slots that are derived from their start. -/
theorem derives_of_trace (nested : steps ≠ []) (found : table.trace steps slot = some child) :
    table.Derives slot child := by
  induction steps generalizing slot with
  | nil => exact absurd rfl nested
  | cons step rest ih =>
      obtain ⟨next, isNext, found⟩ := Option.bind_eq_some_iff.mp found
      have isParent : table.IsParent slot next :=
        isParent_of_key? (key?_of_get? isNext) (step.key_parent? slot)
      by_cases last : rest = []
      · subst last
        obtain rfl := Option.some.inj found
        exact .single isParent
      · exact .head isParent (ih last found)

/-- Different steps lead to different slots. -/
theorem Rooted.trace_injective (rooted : table.Rooted) (found : table.trace steps slot = some child)
    (foundOther : table.trace others slot = some child) : steps = others := by
  have apart {steps : List SlotStep} (last : SlotStep)
      (found : table.trace (steps ++ [last]) slot = some slot) : False :=
    Nat.lt_irrefl _ (rooted.lt_of_derives (derives_of_trace (by simp) found))
  induction steps using List.reverseRecOn generalizing others child with
  | nil =>
      obtain rfl := Option.some.inj found
      rcases List.eq_nil_or_concat' others with rfl | ⟨_, last, rfl⟩
      · rfl
      · exact (apart last foundOther).elim
  | append_singleton steps step ih =>
      rcases List.eq_nil_or_concat' others with rfl | ⟨_, last, rfl⟩
      · obtain rfl := Option.some.inj foundOther
        exact (apart step found).elim
      · obtain ⟨parent, toParent, isKey⟩ := key?_of_trace found
        obtain ⟨other, toOther, isOtherKey⟩ := key?_of_trace foundOther
        obtain ⟨rfl, rfl⟩ := SlotStep.key_injective (Option.some.inj (isKey.symm.trans isOtherKey))
        rw [ih toParent toOther]

end SlotTable

end NullFlow
