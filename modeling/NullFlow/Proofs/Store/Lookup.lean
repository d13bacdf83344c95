import NullFlow.SortedMap
/-!
Lookups in sorted maps after each of their operations.
-/

namespace NullFlow.SortedMap

variable {Key Item : Type} [Ord Key]

@[simp] theorem get?_empty (key : Key) : (empty : SortedMap Key Item).get? key = none := rfl

/-- A key below all keys of a list is not in the list. -/
theorem find_below {key : Key} {entries : List (Key × Item)}
    (below : ∀ entry ∈ entries, compare key entry.1 = .lt) : find key entries = none := by
  induction entries with
  | nil => rfl
  | cons head rest ih =>
      have first := below head List.mem_cons_self
      rw [find, first]
      exact ih fun entry member => below entry (List.mem_cons_of_mem _ member)

/-- What is found is the item of an entry. -/
theorem mem_of_find {key : Key} {item : Item} {entries : List (Key × Item)}
    (found : find key entries = some item) : item ∈ entries.map Prod.snd := by
  induction entries with
  | nil => cases found
  | cons head rest ih =>
      rw [find] at found
      split at found
      · obtain rfl := Option.some.inj found
        exact List.mem_cons_self
      · exact List.mem_cons_of_mem _ (ih found)

variable [Std.LawfulEqOrd Key]

theorem compare_eq_iff (first second : Key) : compare first second = .eq ↔ first = second :=
  ⟨Std.LawfulEqCmp.eq_of_compare, fun equal => equal ▸ Std.ReflCmp.compare_self⟩

/-- A search goes on behind an entry of another key. -/
theorem find_cons (key present : Key) (item : Item) (rest : List (Key × Item)) [DecidableEq Key] :
    find key ((present, item) :: rest) = if key = present then some item else find key rest := by
  simp only [find, compare_eq_iff]

variable [DecidableEq Key]

/-- After an item is put, its key finds it, and the other keys find what they found. -/
theorem find_put (key other : Key) (item : Item) (entries : List (Key × Item)) :
    find other (put key item entries) = if other = key then some item else find other entries := by
  induction entries with
  | nil => simp only [put, find_cons]
  | cons head rest ih =>
      obtain ⟨present, old⟩ := head
      rw [put]
      split
      · simp only [find_cons]
      · rename_i same
        obtain rfl : key = present := (compare_eq_iff key present).mp same
        simp only [find_cons]
        by_cases isKey : other = key
        · simp only [if_pos isKey]
        · simp only [if_neg isKey]
      · rename_i after
        have differ : present ≠ key := by
          intro equal
          rw [(compare_eq_iff key present).mpr equal.symm] at after
          cases after
        simp only [find_cons, ih]
        by_cases isKey : other = key
        · subst isKey
          simp only [if_neg (Ne.symm differ), if_true]
        · simp only [if_neg isKey]

/-- A search among the keys that pass a test finds nothing else. -/
theorem find_filter (test : Key → Bool) (key : Key) (entries : List (Key × Item)) :
    find key (entries.filter fun entry => test entry.1) =
      if test key then find key entries else none := by
  induction entries with
  | nil => simp [find]
  | cons head rest ih =>
      obtain ⟨present, item⟩ := head
      by_cases isKey : key = present
      · subst isKey
        by_cases kept : test key = true
        · simp [kept, find_cons]
        · simp [kept, ih]
      · by_cases kept : test present = true
        · simp [kept, find_cons, isKey, ih]
        · simp [kept, find_cons, isKey, ih]

theorem find_map (right : Key → Item → Item) (key : Key) (entries : List (Key × Item)) :
    find key (entries.map fun entry => (entry.1, right entry.1 entry.2)) =
      (find key entries).map (right key) := by
  induction entries with
  | nil => rfl
  | cons head rest ih =>
      obtain ⟨present, item⟩ := head
      simp only [List.map_cons, find_cons, ih]
      by_cases isKey : key = present
      · subst isKey
        simp
      · simp [isKey]

/-- What is kept is found as before, and the rest is gone. -/
theorem get?_keep (map : SortedMap Key Item) (test : Key → Bool) (key : Key) :
    (map.keep test).get? key = if test key then map.get? key else none :=
  find_filter test key map.entries

/-- The keys are those for which something is found. -/
theorem mem_keys (map : SortedMap Key Item) (key : Key) :
    key ∈ map.keys ↔ (map.get? key).isSome := by
  obtain ⟨entries, ascending⟩ := map
  simp only [keys, get?]
  clear ascending
  induction entries with
  | nil => simp [find]
  | cons head rest ih =>
      obtain ⟨present, item⟩ := head
      rw [find_cons]
      by_cases isKey : key = present
      · simp [isKey]
      · simpa [isKey] using ih

/-- What a merge records for a key of which one or both lists may have an item. -/
def merged (left right : Item → Item) (both : Item → Item → Item) :
    Option Item → Option Item → Option Item
  | some first, some second => some (both first second)
  | some first, none => some (left first)
  | none, some second => some (right second)
  | none, none => none

variable [Std.TransOrd Key]

/-- A merge finds under every key the merged items of both lists. -/
theorem find_merge (left right : Key → Item → Item) (both : Key → Item → Item → Item) (key : Key)
    {first second : List (Key × Item)} (ascendingFirst : Ascending first)
    (ascendingSecond : Ascending second) :
    find key (merge left right both first second) =
      merged (left key) (right key) (both key) (find key first) (find key second) := by
  induction first generalizing second with
  | nil =>
      rw [merge, find_map]
      cases find key second <;> rfl
  | cons head rest ih =>
      obtain ⟨present, item⟩ := head
      obtain ⟨above, tail⟩ := List.pairwise_cons.mp ascendingFirst
      rw [merge]
      induction second with
      | nil =>
          rw [mergeEntry, find_cons, find_cons, ih tail ascendingSecond]
          by_cases isKey : key = present
          · subst isKey
            simp [find, merged]
          · simp [isKey]
      | cons other others inner =>
          obtain ⟨name, value⟩ := other
          obtain ⟨aboveName, tailOthers⟩ := List.pairwise_cons.mp ascendingSecond
          rw [mergeEntry]
          split
          · rename_i before
            rw [find_cons, ih tail ascendingSecond, find_cons key present]
            by_cases isKey : key = present
            · subst isKey
              have missing : find key ((name, value) :: others) = none :=
                find_below fun entry member => by
                  rcases List.mem_cons.mp member with rfl | later
                  · exact before
                  · exact Std.TransCmp.lt_trans before (aboveName entry later)
              simp [missing, merged]
            · simp [isKey]
          · rename_i same
            obtain rfl : present = name := (compare_eq_iff present name).mp same
            rw [find_cons, find_cons, find_cons, ih tail tailOthers]
            by_cases isKey : key = present
            · simp [isKey, merged]
            · simp [isKey]
          · rename_i after
            rw [find_cons, inner tailOthers, find_cons key name]
            by_cases isKey : key = name
            · subst isKey
              have below : compare key present = .lt := Std.OrientedCmp.lt_of_gt after
              have missing : find key ((present, item) :: rest) = none :=
                find_below fun entry member => by
                  rcases List.mem_cons.mp member with rfl | later
                  · exact below
                  · exact Std.TransCmp.lt_trans below (above entry later)
              simp [missing, merged]
            · simp [isKey]

/-- Lists that answer every lookup alike are equal. -/
theorem eq_of_find {first second : List (Key × Item)} (ascendingFirst : Ascending first)
    (ascendingSecond : Ascending second) (same : ∀ key, find key first = find key second) :
    first = second := by
  induction first generalizing second with
  | nil =>
      cases second with
      | nil => rfl
      | cons head others =>
          have missing := same head.1
          rw [find_cons, if_pos rfl] at missing
          cases missing
  | cons head rest ih =>
      obtain ⟨key, item⟩ := head
      obtain ⟨above, tail⟩ := List.pairwise_cons.mp ascendingFirst
      cases second with
      | nil =>
          have missing := same key
          rw [find_cons, if_pos rfl] at missing
          cases missing
      | cons other others =>
          obtain ⟨name, value⟩ := other
          obtain ⟨aboveName, tailOthers⟩ := List.pairwise_cons.mp ascendingSecond
          -- The smaller of the two first keys would be missing in the other list.
          have sameKey : key = name := by
            rw [← compare_eq_iff]
            cases order : compare key name with
            | eq => rfl
            | lt =>
                have missing : find key ((name, value) :: others) = none := by
                  refine find_below (List.forall_mem_cons.mpr ⟨order, ?_⟩)
                  exact fun entry member => Std.TransCmp.lt_trans order (aboveName entry member)
                rw [← same key, find_cons, if_pos rfl] at missing
                cases missing
            | gt =>
                have below : compare name key = .lt := Std.OrientedCmp.lt_of_gt order
                have missing : find name ((key, item) :: rest) = none := by
                  refine find_below (List.forall_mem_cons.mpr ⟨below, ?_⟩)
                  exact fun entry member => Std.TransCmp.lt_trans below (above entry member)
                rw [same name, find_cons, if_pos rfl] at missing
                cases missing
          subst sameKey
          have sameItem := same key
          rw [find_cons, if_pos rfl, find_cons, if_pos rfl] at sameItem
          obtain rfl := Option.some.inj sameItem
          rw [ih tail tailOthers]
          intro other
          by_cases isKey : other = key
          · rw [isKey, find_below above, find_below aboveName]
          · have sameOther := same other
            rwa [find_cons, if_neg isKey, find_cons, if_neg isKey] at sameOther

/-- Maps that answer every lookup alike are equal. -/
theorem eq_of_get? {first second : SortedMap Key Item}
    (same : ∀ key, first.get? key = second.get? key) : first = second := by
  obtain ⟨entries, ascending⟩ := first
  obtain ⟨others, ascendingOthers⟩ := second
  obtain rfl := eq_of_find ascending ascendingOthers same
  rfl

/-- Insertion changes what its own key finds and nothing else. -/
theorem get?_insert (map : SortedMap Key Item) (key other : Key) (item : Item) :
    (map.insert key item).get? other = if other = key then some item else map.get? other :=
  find_put key other item map.entries

/-- A union has under every key the merged items of both maps. -/
theorem get?_unionWith (left right : Key → Item → Item) (both : Key → Item → Item → Item)
    (first second : SortedMap Key Item) (key : Key) :
    (unionWith left right both first second).get? key =
      merged (left key) (right key) (both key) (first.get? key) (second.get? key) :=
  find_merge left right both key first.ascending second.ascending

end NullFlow.SortedMap
