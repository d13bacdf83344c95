import Mathlib.Data.List.Pairwise
import Mathlib.Data.List.Sort
import NullFlow.Proofs.Diagnostic.Order
/-!
The ranks of diagnostics. A report is strictly ascending and shows of every rank the diagnostic that
it is given first. So its ranks depend on the ranks that it is given and on nothing else.
-/

namespace NullFlow.Diagnostic

/-- What the place of a diagnostic in a report depends on. -/
def sortKey (diagnostic : Diagnostic) : Span × String × List String :=
  (diagnostic.location, diagnostic.rule, diagnostic.arguments)

instance : Std.TransCmp order := by
  unfold order
  infer_instance

/-- Diagnostics have equal rank if they agree in their keys. -/
theorem order_eq_iff {first second : Diagnostic} :
    order first second = .eq ↔ first.sortKey = second.sortKey := by
  constructor
  · intro same
    have sameArguments : first.arguments = second.arguments := by
      simp only [order, compareLex_eq_eq] at same
      exact Std.LawfulEqCmp.eq_of_compare same.2.2.2.2.2.2
    simp only [sortKey, location_eq_of_order same, rule_eq_of_order same, sameArguments]
  · intro same
    obtain ⟨location, rule, arguments⟩ : first.location = second.location ∧
        first.rule = second.rule ∧ first.arguments = second.arguments := by
      simpa only [sortKey, Prod.mk.injEq] using same
    simp only [order, compareLex_eq_eq, compareOn, location, rule, arguments,
      Std.ReflCmp.compare_self, and_self]

theorem order_symm {first second : Diagnostic} (same : order first second = .eq) :
    order second first = .eq := order_eq_iff.mpr (order_eq_iff.mp same).symm

/-- Diagnostics of equal rank compare alike with all others. -/
theorem order_congr {first second : Diagnostic} (same : order first second = .eq)
    (other : Diagnostic) : order first other = order second other :=
  Std.TransCmp.congr_left same

/-- Every diagnostic ranks below all that follow it. -/
def Ascending (diagnostics : List Diagnostic) : Prop :=
  diagnostics.Pairwise fun first second => order first second = .lt

section Place

variable {diagnostic head : Diagnostic} {placed rest : List Diagnostic}

theorem Ascending.place (ascending : Ascending placed) (diagnostic : Diagnostic) :
    Ascending (place diagnostic placed) := by
  induction placed with
  | nil => exact List.pairwise_singleton _ diagnostic
  | cons head rest ih =>
      obtain ⟨below, others⟩ := List.pairwise_cons.mp ascending
      unfold Diagnostic.place
      split
      · rename_i before
        refine List.pairwise_cons.mpr ⟨fun other member => ?_, ascending⟩
        rcases List.mem_cons.mp member with rfl | inRest
        · exact before
        · exact Std.TransCmp.lt_trans before (below other inRest)
      · exact ascending
      · rename_i behind
        refine List.pairwise_cons.mpr ⟨fun other member => ?_, ih others⟩
        rcases of_mem_place member with rfl | inRest
        · exact Std.OrientedCmp.gt_iff_lt.mp behind
        · exact below other inRest

/-- No two diagnostics of an ascending list have equal rank. -/
theorem Ascending.eq_of_order (ascending : Ascending placed) {first second : Diagnostic}
    (isFirst : first ∈ placed) (isSecond : second ∈ placed) (same : order first second = .eq) :
    first = second := by
  by_contra differ
  have apart := ascending.imp (S := fun first second => order first second ≠ .eq)
    fun below equal => by rw [below] at equal; cases equal
  have symmetric : Std.Symm fun first second => order first second ≠ .eq :=
    ⟨fun _ _ different equal => different (order_symm equal)⟩
  exact apart.forall isFirst isSecond differ same

/-- The test for the rank of a diagnostic. -/
def sharesRank (diagnostic other : Diagnostic) : Bool := order diagnostic other == .eq

theorem sharesRank_iff {other : Diagnostic} :
    sharesRank diagnostic other = true ↔ order diagnostic other = .eq := beq_iff_eq

theorem sharesRank_self (diagnostic : Diagnostic) : sharesRank diagnostic diagnostic = true :=
  sharesRank_iff.mpr Std.ReflCmp.compare_self

theorem sharesRank_eq (diagnostic : Diagnostic) :
    diagnostic.sharesRank = fun other => decide (other.sortKey = diagnostic.sortKey) := by
  funext other
  rw [Bool.eq_iff_iff, sharesRank_iff, order_eq_iff, decide_eq_true_iff, eq_comm]

theorem sharesRank_congr {first second : Diagnostic} (same : order first second = .eq)
    (other : Diagnostic) : sharesRank other first = sharesRank other second := by
  unfold sharesRank
  rw [Std.TransCmp.congr_right same]

/-- A placed diagnostic is found where no other has its rank. -/
theorem find?_place (ascending : Ascending placed) (sought : Diagnostic) :
    (Diagnostic.place diagnostic placed).find? sought.sharesRank =
      (placed ++ [diagnostic]).find? sought.sharesRank := by
  induction placed with
  | nil => rfl
  | cons head rest ih =>
      unfold Diagnostic.place
      split
      · rename_i before
        cases hit : sought.sharesRank diagnostic with
        | false => simp [hit, List.find?_cons]
        | true =>
            -- All of the others rank above the diagnostic.
            have none : (head :: rest).find? sought.sharesRank = none := by
              refine List.find?_eq_none.mpr fun other member shared => ?_
              have equal := order_symm (sharesRank_iff.mp hit)
              have above : order diagnostic other = .lt := by
                rcases List.mem_cons.mp member with rfl | inRest
                · exact before
                · exact Std.TransCmp.lt_trans before ((List.pairwise_cons.mp ascending).1 other inRest)
              rw [order_congr equal, sharesRank_iff.mp shared] at above
              cases above
            rw [List.find?_append, none, List.find?_cons_of_pos hit]
            simp [hit]
      · rename_i same
        rw [List.find?_append]
        cases hit : sought.sharesRank diagnostic with
        | false => simp [hit]
        | true => simp [sharesRank_congr same, ← hit]
      · rw [List.cons_append, List.find?_cons, List.find?_cons,
          ih (List.pairwise_cons.mp ascending).2]

end Place

section Report

variable {diagnostics : List Diagnostic} {diagnostic : Diagnostic}

theorem ascending_sortAndDedup (diagnostics : List Diagnostic) :
    Ascending (sortAndDedup diagnostics) := by
  suffices kept : ∀ placed, Ascending placed → Ascending
      (diagnostics.foldl (fun placed diagnostic => place diagnostic placed) placed) by
    exact kept [] List.Pairwise.nil
  induction diagnostics with
  | nil => exact fun placed ascending => ascending
  | cons head rest ih => exact fun placed ascending => ih _ (ascending.place head)

/-- In an ascending list every diagnostic is the first of its rank. -/
theorem Ascending.mem_iff (ascending : Ascending diagnostics) :
    diagnostic ∈ diagnostics ↔ diagnostics.find? diagnostic.sharesRank = some diagnostic := by
  refine ⟨fun member => ?_, List.mem_of_find?_eq_some⟩
  cases found : diagnostics.find? diagnostic.sharesRank with
  | none => exact absurd (sharesRank_self diagnostic) (List.find?_eq_none.mp found _ member)
  | some other =>
      have same := sharesRank_iff.mp (List.find?_some found)
      rw [ascending.eq_of_order member (List.mem_of_find?_eq_some found) same]

/-- The first diagnostic of a rank in a report is the first that the report is given. -/
theorem find?_sortAndDedup (sought : Diagnostic) :
    (sortAndDedup diagnostics).find? sought.sharesRank = diagnostics.find? sought.sharesRank := by
  suffices found : ∀ placed, Ascending placed →
      (diagnostics.foldl (fun placed diagnostic => place diagnostic placed) placed).find?
        sought.sharesRank = (placed ++ diagnostics).find? sought.sharesRank by
    exact found [] List.Pairwise.nil
  induction diagnostics with
  | nil =>
      intro placed ascending
      rw [List.append_nil, List.foldl_nil]
  | cons head rest ih =>
      intro placed ascending
      rw [List.foldl_cons, ih _ (ascending.place head), List.find?_append, find?_place ascending,
        ← List.find?_append, List.append_assoc, List.singleton_append]

/-- A report shows of every rank the diagnostic that it is given first. -/
theorem mem_sortAndDedup_iff : diagnostic ∈ sortAndDedup diagnostics ↔
    diagnostics.find? diagnostic.sharesRank = some diagnostic := by
  rw [(ascending_sortAndDedup diagnostics).mem_iff, find?_sortAndDedup]

/-- A report is given whole by what it shows. -/
theorem Ascending.eq_of_mem_iff {first second : List Diagnostic} (ofFirst : Ascending first)
    (ofSecond : Ascending second) (same : ∀ diagnostic, diagnostic ∈ first ↔ diagnostic ∈ second) :
    first = second := by
  have irreflexive : Std.Irrefl fun first second => order first second = .lt :=
    ⟨fun diagnostic below => by
      rw [order_eq_iff.mpr rfl] at below
      cases below⟩
  have antisymmetric : Std.Antisymm fun first second => order first second = .lt :=
    ⟨fun _ _ below above => absurd above (Std.OrientedCmp.not_lt_of_lt below)⟩
  exact List.Pairwise.eq_of_mem_iff ofFirst ofSecond same

/-- A choice that goes by rank may be made before or after the report. -/
theorem sortAndDedup_filter {keep : Diagnostic → Bool}
    (byRank : ∀ first ∈ diagnostics, ∀ second ∈ diagnostics, order first second = .eq →
      keep first = keep second) :
    sortAndDedup (diagnostics.filter keep) = (sortAndDedup diagnostics).filter keep := by
  refine (ascending_sortAndDedup _).eq_of_mem_iff ((ascending_sortAndDedup _).filter _)
    fun diagnostic => ?_
  rw [List.mem_filter, mem_sortAndDedup_iff, mem_sortAndDedup_iff, List.find?_filter]
  -- Among the diagnostics of its rank all are kept or none is.
  have alike (inside : diagnostic ∈ diagnostics) (kept : keep diagnostic = true) :
      diagnostics.find? (fun other => decide (keep other = true ∧ diagnostic.sharesRank other = true))
        = diagnostics.find? diagnostic.sharesRank := by
    rw [← List.head?_filter, ← List.head?_filter]
    refine congrArg List.head? (List.filter_congr fun other member => ?_)
    cases shared : diagnostic.sharesRank other with
    | false => simp
    | true => simp [← byRank diagnostic inside other member (sharesRank_iff.mp shared), kept]
  constructor
  · intro found
    have kept : keep diagnostic = true := by simpa [sharesRank_self] using List.find?_some found
    rw [alike (List.mem_of_find?_eq_some found) kept] at found
    exact ⟨found, kept⟩
  · rintro ⟨found, kept⟩
    rw [alike (List.mem_of_find?_eq_some found) kept, found]

/-- Ascending lists with the same ranks have them in the same order. -/
theorem Ascending.sortKeys_eq {first second : List Diagnostic} (ofFirst : Ascending first)
    (ofSecond : Ascending second)
    (same : ∀ key, key ∈ first.map sortKey ↔ key ∈ second.map sortKey) :
    first.map sortKey = second.map sortKey := by
  let below (lower upper : Span × String × List String) : Prop := ∃ first second : Diagnostic,
    first.sortKey = lower ∧ second.sortKey = upper ∧ order first second = .lt
  have ordered {diagnostics : List Diagnostic} (ascending : Ascending diagnostics) :
      (diagnostics.map sortKey).Pairwise below :=
    List.pairwise_map.mpr (ascending.imp fun less => ⟨_, _, rfl, rfl, less⟩)
  have irreflexive : Std.Irrefl below := ⟨by
    rintro _ ⟨first, second, rfl, same, less⟩
    rw [order_eq_iff.mpr same.symm] at less
    cases less⟩
  have antisymmetric : Std.Antisymm below := ⟨by
    rintro _ _ ⟨first, second, rfl, rfl, less⟩ ⟨third, fourth, isThird, isFourth, more⟩
    rw [order_congr (order_eq_iff.mpr isThird), Std.TransCmp.congr_right (order_eq_iff.mpr isFourth)]
      at more
    exact absurd more (Std.OrientedCmp.not_lt_of_lt less)⟩
  exact List.Pairwise.eq_of_mem_iff (ordered ofFirst) (ordered ofSecond) same

/-- A report has the ranks that it is given. -/
theorem mem_sortKeys_iff {key : Span × String × List String} :
    key ∈ (sortAndDedup diagnostics).map sortKey ↔ key ∈ diagnostics.map sortKey := by
  simp only [List.mem_map]
  constructor
  · rintro ⟨diagnostic, member, rfl⟩
    exact ⟨diagnostic, of_mem_sortAndDedup member, rfl⟩
  · rintro ⟨diagnostic, member, rfl⟩
    obtain ⟨kept, shown, same⟩ := rank_sortAndDedup member
    exact ⟨kept, shown, (order_eq_iff.mp same).symm⟩

/-- The keys of a report do not depend on the order in which it is given its diagnostics. -/
theorem sortKeys_perm {first second : List Diagnostic} (permuted : first.Perm second) :
    (sortAndDedup first).map sortKey = (sortAndDedup second).map sortKey := by
  refine (ascending_sortAndDedup first).sortKeys_eq (ascending_sortAndDedup second) fun key => ?_
  rw [mem_sortKeys_iff, mem_sortKeys_iff]
  exact (permuted.map sortKey).mem_iff

theorem Ascending.nodup_sortKeys (ascending : Ascending diagnostics) :
    (diagnostics.map sortKey).Nodup := by
  refine List.pairwise_map.mpr (ascending.imp fun {first second} below same => ?_)
  rw [order_eq_iff.mpr same] at below
  cases below

end Report

end NullFlow.Diagnostic
