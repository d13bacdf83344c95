import NullFlow.Diagnostic.Finding
/-!
The order of reports: which diagnostics a report keeps. Of diagnostics with equal rank it keeps one,
and these are findings of one rule.
-/

namespace NullFlow

theorem DiagnosticKind.code_injective {first second : DiagnosticKind}
    (same : first.code = second.code) : first = second := by
  revert same
  cases first <;> cases second <;> decide

namespace Diagnostic

/-- The diagnostic has the severity of its rule. -/
def Rated (diagnostic : Diagnostic) : Prop := diagnostic.severity = diagnostic.kind.severity

instance : Std.ReflCmp order := by
  unfold order
  infer_instance

theorem rule_eq_of_order {first second : Diagnostic} (same : order first second = .eq) :
    first.rule = second.rule := by
  simp only [order, compareLex_eq_eq] at same
  exact Std.LawfulEqCmp.eq_of_compare same.2.2.2.2.2.1

theorem location_eq_of_order {first second : Diagnostic} (same : order first second = .eq) :
    first.location = second.location := by
  obtain ⟨_, _, _, _, ⟨_, _, _, _, _⟩, _⟩ := first
  obtain ⟨_, _, _, _, ⟨_, _, _, _, _⟩, _⟩ := second
  simp only [order, compareLex_eq_eq] at same
  obtain ⟨file, startLine, startColumn, endLine, endColumn, _⟩ := same
  rw [Span.mk.injEq]
  exact ⟨Std.LawfulEqCmp.eq_of_compare file, Std.LawfulEqCmp.eq_of_compare startLine,
    Std.LawfulEqCmp.eq_of_compare startColumn, Std.LawfulEqCmp.eq_of_compare endLine,
    Std.LawfulEqCmp.eq_of_compare endColumn⟩

theorem kind_eq_of_order {first second : Diagnostic} (same : order first second = .eq) :
    first.kind = second.kind := DiagnosticKind.code_injective (rule_eq_of_order same)

/-- Diagnostics of equal rank have one severity. -/
theorem Rated.severity_eq {first second : Diagnostic} (ratedFirst : first.Rated)
    (ratedSecond : second.Rated) (same : order first second = .eq) :
    first.severity = second.severity := by
  rw [ratedFirst, ratedSecond, kind_eq_of_order same]

section Place

variable {diagnostic other : Diagnostic} {placed diagnostics : List Diagnostic}

theorem of_mem_place (member : other ∈ place diagnostic placed) :
    other = diagnostic ∨ other ∈ placed := by
  induction placed with
  | nil => exact Or.inl (List.mem_singleton.mp member)
  | cons head rest ih =>
      unfold place at member
      split at member
      · exact List.mem_cons.mp member
      · exact Or.inr member
      · rcases List.mem_cons.mp member with rfl | inRest
        · exact Or.inr List.mem_cons_self
        · exact (ih inRest).imp_right (List.mem_cons_of_mem _)

theorem mem_place (member : other ∈ placed) : other ∈ place diagnostic placed := by
  induction placed with
  | nil => cases member
  | cons head rest ih =>
      unfold place
      split
      · exact List.mem_cons_of_mem _ member
      · exact member
      · rcases List.mem_cons.mp member with rfl | inRest
        · exact List.mem_cons_self
        · exact List.mem_cons_of_mem _ (ih inRest)

/-- There is a diagnostic of its rank where a diagnostic was placed. -/
theorem rank_place (diagnostic : Diagnostic) (placed : List Diagnostic) :
    ∃ kept ∈ place diagnostic placed, order diagnostic kept = .eq := by
  induction placed with
  | nil => exact ⟨diagnostic, List.mem_singleton_self _, Std.ReflCmp.compare_self⟩
  | cons head rest ih =>
      unfold place
      split
      · exact ⟨diagnostic, List.mem_cons_self, Std.ReflCmp.compare_self⟩
      · rename_i same
        exact ⟨head, List.mem_cons_self, same⟩
      · obtain ⟨kept, inRest, same⟩ := ih
        exact ⟨kept, List.mem_cons_of_mem _ inRest, same⟩

/-- A report adds nothing to what it is given. -/
theorem of_mem_sortAndDedup (member : other ∈ sortAndDedup diagnostics) : other ∈ diagnostics := by
  suffices placed : ∀ placed, other ∈ diagnostics.foldl
      (fun placed diagnostic => place diagnostic placed) placed →
      other ∈ placed ∨ other ∈ diagnostics by
    exact (placed [] member).resolve_left List.not_mem_nil
  clear member
  induction diagnostics with
  | nil => exact fun placed member => Or.inl member
  | cons head rest ih =>
      intro placed member
      rcases ih _ member with inPlaced | inRest
      · rcases of_mem_place inPlaced with rfl | before
        · exact Or.inr List.mem_cons_self
        · exact Or.inl before
      · exact Or.inr (List.mem_cons_of_mem _ inRest)

/-- A report has a diagnostic of every rank that it is given. -/
theorem rank_sortAndDedup (member : diagnostic ∈ diagnostics) :
    ∃ kept ∈ sortAndDedup diagnostics, order diagnostic kept = .eq := by
  suffices kept : ∀ placed, (diagnostic ∈ diagnostics ∨
      ∃ kept ∈ placed, order diagnostic kept = .eq) →
      ∃ kept ∈ diagnostics.foldl (fun placed diagnostic => place diagnostic placed) placed,
        order diagnostic kept = .eq by
    exact kept [] (Or.inl member)
  clear member
  induction diagnostics with
  | nil => exact fun placed given => given.resolve_left List.not_mem_nil
  | cons head rest ih =>
      intro placed given
      apply ih
      rcases given with listed | ⟨kept, inPlaced, same⟩
      · rcases List.mem_cons.mp listed with rfl | inRest
        · exact Or.inr (rank_place _ placed)
        · exact Or.inl inRest
      · exact Or.inr ⟨kept, mem_place inPlaced, same⟩

end Place

end Diagnostic

end NullFlow
