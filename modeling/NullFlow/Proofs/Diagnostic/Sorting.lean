import Mathlib.Data.List.Destutter
import NullFlow.Proofs.Diagnostic.Ranks
/-!
A report as a sort. Placing one diagnostic after the other makes the list that a stable sort makes,
once every diagnostic of the rank of the one kept before it is dropped.
-/

namespace NullFlow.Diagnostic

/-- The first diagnostic stands no later than the second in a sorted list. -/
def atMost (first second : Diagnostic) : Bool := (order first second).isLE

theorem atMost_trans (first second third : Diagnostic) (lower : atMost first second = true)
    (upper : atMost second third = true) : atMost first third = true :=
  Std.TransCmp.isLE_trans lower upper

theorem atMost_total (first second : Diagnostic) :
    (atMost first second || atMost second first) = true := by
  have swapped : order second first = (order first second).swap := Std.OrientedCmp.eq_swap
  rw [atMost, atMost, swapped]
  cases order first second <;> rfl

section Stability

variable (diagnostics : List Diagnostic) (sought : Diagnostic)

/-- The sort is stable: diagnostics of one rank keep their order. -/
theorem filter_mergeSort :
    (diagnostics.mergeSort atMost).filter sought.sharesRank =
      diagnostics.filter sought.sharesRank := by
  have alike : (diagnostics.filter sought.sharesRank).Pairwise fun first second =>
      atMost first second = true := by
    refine List.pairwise_of_forall_mem_list fun first isFirst second isSecond => ?_
    have sameFirst := sharesRank_iff.mp (List.mem_filter.mp isFirst).2
    have sameSecond := sharesRank_iff.mp (List.mem_filter.mp isSecond).2
    rw [atMost, ← order_congr sameFirst, sameSecond]
    rfl
  have kept := (List.sublist_mergeSort atMost_trans atMost_total alike
    List.filter_sublist).filter sought.sharesRank
  simp only [List.filter_filter, Bool.and_self] at kept
  exact (kept.eq_of_length ((List.mergeSort_perm _ _).filter _).length_eq.symm).symm

theorem find?_mergeSort :
    (diagnostics.mergeSort atMost).find? sought.sharesRank =
      diagnostics.find? sought.sharesRank := by
  rw [← List.head?_filter, filter_mergeSort, List.head?_filter]

end Stability

/-- Diagnostics of unequal rank. -/
def Differs (first second : Diagnostic) : Prop := order first second ≠ .eq

instance : DecidableRel Differs := fun first second =>
  inferInstanceAs (Decidable (order first second ≠ .eq))

section Neighbours

variable {head : Diagnostic} {rest diagnostics : List Diagnostic}

/-- Of neighbours of one rank the first is kept, so it is found there still. -/
theorem find?_destutter' (sought : Diagnostic) :
    (rest.destutter' Differs head).find? sought.sharesRank =
      (head :: rest).find? sought.sharesRank := by
  induction rest generalizing head with
  | nil => rfl
  | cons next rest ih =>
      by_cases same : order head next = .eq
      · have alike := sharesRank_congr same sought
        rw [List.destutter'_cons_neg _ (not_not_intro same), ih]
        cases hit : sought.sharesRank head with
        | false => simp [hit, ← alike]
        | true => rw [List.find?_cons_of_pos hit, List.find?_cons_of_pos hit]
      · rw [List.destutter'_cons_pos _ same]
        simp only [List.find?_cons, ih]

theorem find?_destutter (sought : Diagnostic) :
    (diagnostics.destutter Differs).find? sought.sharesRank =
      diagnostics.find? sought.sharesRank := by
  cases diagnostics with
  | nil => rfl
  | cons head rest => exact find?_destutter' sought

/-- In a sorted list every diagnostic that differs from the one kept before it ranks above it. -/
theorem ascending_destutter' (sorted : (head :: rest).Pairwise (atMost · ·)) :
    Ascending (rest.destutter' Differs head) := by
  induction rest generalizing head with
  | nil => exact List.pairwise_singleton _ head
  | cons next rest ih =>
      obtain ⟨below, others⟩ := List.pairwise_cons.mp sorted
      by_cases same : order head next = .eq
      · rw [List.destutter'_cons_neg _ (not_not_intro same)]
        exact ih (sorted.sublist ((List.sublist_cons_self next rest).cons_cons head))
      · rw [List.destutter'_cons_pos _ same]
        have before : order head next = .lt :=
          (Ordering.isLE_iff_eq_lt_or_eq_eq.mp (below next List.mem_cons_self)).resolve_right same
        refine List.pairwise_cons.mpr ⟨fun other member => ?_, ih others⟩
        rcases List.mem_cons.mp ((List.destutter'_sublist _ _ _).mem member) with rfl | inRest
        · exact before
        · exact Std.TransCmp.lt_of_lt_of_isLE before ((List.pairwise_cons.mp others).1 other inRest)

theorem ascending_destutter (sorted : diagnostics.Pairwise (atMost · ·)) :
    Ascending (diagnostics.destutter Differs) := by
  cases diagnostics with
  | nil => exact List.Pairwise.nil
  | cons head rest => exact ascending_destutter' sorted

end Neighbours

/-- A report is the stable sort of what it is given, less every diagnostic that has the rank of the
one kept before it. -/
theorem sortAndDedup_eq_mergeSort (diagnostics : List Diagnostic) :
    sortAndDedup diagnostics = (diagnostics.mergeSort atMost).destutter Differs := by
  have ascending := ascending_destutter
    (List.pairwise_mergeSort atMost_trans atMost_total diagnostics)
  refine (ascending_sortAndDedup _).eq_of_mem_iff ascending fun diagnostic => ?_
  rw [mem_sortAndDedup_iff, ascending.mem_iff, find?_destutter, find?_mergeSort]

end NullFlow.Diagnostic
