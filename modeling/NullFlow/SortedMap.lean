/-!
Finite maps kept as lists that ascend strictly in their keys. Two such maps that answer every
lookup alike are equal, so the laws of the operations can be stated as plain equations.
-/

namespace NullFlow

/-- The keys ascend strictly. -/
def Ascending {Key Item : Type} [Ord Key] (entries : List (Key × Item)) : Prop :=
  entries.Pairwise fun first second => compare first.1 second.1 = .lt

/-- A finite map from keys to items. -/
structure SortedMap (Key Item : Type) [Ord Key] where
  entries : List (Key × Item)
  ascending : Ascending entries

namespace SortedMap

variable {Key Item : Type} [Ord Key]

/-- The item that a list of entries records for a key. -/
def find (key : Key) : List (Key × Item) → Option Item
  | [] => none
  | (present, item) :: rest => if compare key present = .eq then some item else find key rest

/-- Puts an entry at its place and replaces an entry with the same key. -/
def put (key : Key) (item : Item) : List (Key × Item) → List (Key × Item)
  | [] => [(key, item)]
  | (present, old) :: rest =>
      match compare key present with
      | .lt => (key, item) :: (present, old) :: rest
      | .eq => (key, item) :: rest
      | .gt => (present, old) :: put key item rest

/-- Merges one entry into the list that `rest` merges into; see `merge`. -/
def mergeEntry (left right : Key → Item → Item) (both : Key → Item → Item → Item)
    (key : Key) (item : Item) (rest : List (Key × Item) → List (Key × Item)) :
    List (Key × Item) → List (Key × Item)
  | [] => (key, left key item) :: rest []
  | (other, value) :: others =>
      match compare key other with
      | .lt => (key, left key item) :: rest ((other, value) :: others)
      | .eq => (key, both key item value) :: rest others
      | .gt => (other, right other value) :: mergeEntry left right both key item rest others

/-- Merges two lists of entries. An entry that only one list has goes through `left` or `right`,
and the two items of a shared key go through `both`. -/
def merge (left right : Key → Item → Item) (both : Key → Item → Item → Item) :
    List (Key × Item) → List (Key × Item) → List (Key × Item)
  | [], others => others.map fun entry => (entry.1, right entry.1 entry.2)
  | (key, item) :: rest, others =>
      mergeEntry left right both key item (fun remaining => merge left right both rest remaining)
        others

/-- The entries after an item is put are the new one and old ones. -/
theorem mem_put {key : Key} {item : Item} {entry : Key × Item} {entries : List (Key × Item)}
    (member : entry ∈ put key item entries) : entry = (key, item) ∨ entry ∈ entries := by
  induction entries with
  | nil => simpa [put] using member
  | cons head rest ih =>
      obtain ⟨present, old⟩ := head
      rw [put] at member
      split at member <;> simp only [List.mem_cons] at member ⊢ <;> grind

/-- Every key of a merged list is below a key that is below both lists. -/
theorem merge_above (left right : Key → Item → Item) (both : Key → Item → Item → Item)
    (bound : Key) {first second : List (Key × Item)}
    (aboveFirst : ∀ entry ∈ first, compare bound entry.1 = .lt)
    (aboveSecond : ∀ entry ∈ second, compare bound entry.1 = .lt) :
    ∀ entry ∈ merge left right both first second, compare bound entry.1 = .lt := by
  induction first generalizing second with
  | nil =>
      intro entry member
      obtain ⟨origin, present, rfl⟩ := List.mem_map.mp member
      exact aboveSecond origin present
  | cons head rest ih =>
      obtain ⟨key, item⟩ := head
      have aboveKey : compare bound key = .lt := aboveFirst (key, item) (List.mem_cons_self ..)
      have aboveRest : ∀ entry ∈ rest, compare bound entry.1 = .lt := fun entry member =>
        aboveFirst entry (List.mem_cons_of_mem _ member)
      rw [merge]
      induction second with
      | nil =>
          intro entry member
          rcases List.mem_cons.mp member with rfl | later
          · exact aboveKey
          · exact ih aboveRest (by simp) entry later
      | cons other others inner =>
          obtain ⟨name, value⟩ := other
          have aboveOthers : ∀ entry ∈ others, compare bound entry.1 = .lt :=
            fun entry member => aboveSecond entry (List.mem_cons_of_mem _ member)
          rw [mergeEntry]
          split <;> intro entry member <;> rcases List.mem_cons.mp member with rfl | later
          · exact aboveKey
          · exact ih aboveRest aboveSecond entry later
          · exact aboveKey
          · exact ih aboveRest aboveOthers entry later
          · exact aboveSecond (name, value) (List.mem_cons_self ..)
          · exact inner aboveOthers entry later

section Laws

variable [Std.TransOrd Key] [Std.LawfulEqOrd Key]

/-- The keys stay in order when an item is put. -/
theorem ascending_put (key : Key) (item : Item) {entries : List (Key × Item)}
    (ascending : Ascending entries) : Ascending (put key item entries) := by
  induction entries with
  | nil => simp [put, Ascending]
  | cons head rest ih =>
      obtain ⟨present, old⟩ := head
      have above : ∀ entry ∈ rest, compare present entry.1 = .lt :=
        (List.pairwise_cons.mp ascending).1
      have tail : Ascending rest := (List.pairwise_cons.mp ascending).2
      rw [put]
      split
      · rename_i before
        refine List.pairwise_cons.mpr ⟨fun entry member => ?_, ascending⟩
        rcases List.mem_cons.mp member with rfl | later
        · exact before
        · exact Std.TransCmp.lt_trans before (above entry later)
      · rename_i same
        have equal : key = present := Std.LawfulEqCmp.eq_of_compare same
        exact List.pairwise_cons.mpr ⟨fun entry member => equal ▸ above entry member, tail⟩
      · rename_i after
        refine List.pairwise_cons.mpr ⟨fun entry member => ?_, ih tail⟩
        rcases mem_put member with rfl | later
        · exact Std.OrientedCmp.lt_of_gt after
        · exact above entry later

/-- The keys of a merge are in order. -/
theorem ascending_merge (left right : Key → Item → Item) (both : Key → Item → Item → Item)
    {first second : List (Key × Item)} (ascendingFirst : Ascending first)
    (ascendingSecond : Ascending second) : Ascending (merge left right both first second) := by
  induction first generalizing second with
  | nil =>
      exact List.pairwise_map.mpr (List.Pairwise.imp (fun below => below) ascendingSecond)
  | cons head rest ih =>
      obtain ⟨key, item⟩ := head
      obtain ⟨above, tail⟩ := List.pairwise_cons.mp ascendingFirst
      rw [merge]
      induction second with
      | nil =>
          exact List.pairwise_cons.mpr
            ⟨merge_above left right both key above (by simp), ih tail List.Pairwise.nil⟩
      | cons other others inner =>
          obtain ⟨name, value⟩ := other
          obtain ⟨aboveName, tailOthers⟩ := List.pairwise_cons.mp ascendingSecond
          rw [mergeEntry]
          split
          · rename_i before
            refine List.pairwise_cons.mpr ⟨?_, ih tail ascendingSecond⟩
            refine merge_above left right both key above fun entry member => ?_
            rcases List.mem_cons.mp member with rfl | later
            · exact before
            · exact Std.TransCmp.lt_trans before (aboveName entry later)
          · rename_i same
            have equal : key = name := Std.LawfulEqCmp.eq_of_compare same
            exact List.pairwise_cons.mpr
              ⟨merge_above left right both key above (equal ▸ aboveName), ih tail tailOthers⟩
          · rename_i after
            have below : compare name key = .lt := Std.OrientedCmp.lt_of_gt after
            refine List.pairwise_cons.mpr ⟨?_, inner tailOthers⟩
            have aboveFirst : ∀ entry ∈ (key, item) :: rest, compare name entry.1 = .lt := by
              intro entry member
              rcases List.mem_cons.mp member with rfl | later
              · exact below
              · exact Std.TransCmp.lt_trans below (above entry later)
            exact merge_above left right both name aboveFirst aboveName

end Laws

/-- The map without entries. -/
def empty : SortedMap Key Item := ⟨[], List.Pairwise.nil⟩

def get? (map : SortedMap Key Item) (key : Key) : Option Item := find key map.entries

def size (map : SortedMap Key Item) : Nat := map.entries.length

def keys (map : SortedMap Key Item) : List Key := map.entries.map Prod.fst

/-- The entries whose keys satisfy the test. -/
def keep (map : SortedMap Key Item) (test : Key → Bool) : SortedMap Key Item :=
  ⟨map.entries.filter fun entry => test entry.1, map.ascending.filter _⟩

variable [Std.TransOrd Key] [Std.LawfulEqOrd Key]

/-- Records an item and replaces an earlier item of the same key. -/
def insert (map : SortedMap Key Item) (key : Key) (item : Item) : SortedMap Key Item :=
  ⟨put key item map.entries, ascending_put key item map.ascending⟩

/-- The union of two maps; see `merge`. -/
def unionWith (left right : Key → Item → Item) (both : Key → Item → Item → Item)
    (first second : SortedMap Key Item) : SortedMap Key Item :=
  ⟨merge left right both first.entries second.entries,
    ascending_merge left right both first.ascending second.ascending⟩

end SortedMap
end NullFlow
