import NullFlow.Proofs.Body.Nesting
import NullFlow.Proofs.Body.References
/-!
The verdicts of the check of a body. Every defect that it reports is one of the body, and a body
that has none of these defects is valid.
-/

namespace NullFlow

namespace Body

/-- The body has the defect. -/
def Exhibits (body : Body) : Defect → Prop
  | .outOfRange reference => body.Stores reference ∧ body.covers reference = false
  | .containsItself node => body.Reaches node ∧ Relation.TransGen body.Contains node node
  | .tooDeep node => ∃ around, body.Path (node :: around) ∧ (node :: around).Nodup ∧
      (node :: around).length = maxNesting + 1

variable {body : Body}

/-- The nodes of a path lie around its last node. -/
theorem Path.leads {node other : NodeId} {around : List NodeId} (path : body.Path (node :: around))
    (outer : other ∈ around) : Relation.TransGen body.Contains other node := by
  generalize same : node :: around = nodes at path
  induction path generalizing node around with
  | root =>
      cases same
      cases outer
  | inside contains before ih =>
      cases same
      rcases List.mem_cons.mp outer with rfl | further
      · exact .single contains
      · exact (ih further rfl).tail contains

/-- The number of the last node of a path is stored in the body. -/
theorem Path.stores {node : NodeId} {around : List NodeId} (path : body.Path (node :: around)) :
    body.Stores node.reference := by
  cases path with
  | root => exact .root
  | inside contains before => exact .inside contains.stores

/-- A loop that fails fails at some child, after some rounds. -/
theorem foldlM_error {step : List NodeId → NodeId → Except Defect (List NodeId)}
    {children finished : List NodeId} {defect : Defect}
    (failed : children.foldlM step finished = .error defect) :
    ∃ child ∈ children, ∃ between, step between child = .error defect := by
  induction children generalizing finished with
  | nil => cases failed
  | cons child rest ih =>
      rw [List.foldlM_cons] at failed
      cases first : step finished child with
      | error other =>
          rw [first] at failed
          cases failed
          exact ⟨child, List.mem_cons_self, finished, first⟩
      | ok next =>
          rw [first] at failed
          obtain ⟨other, member, between, atOther⟩ := ih failed
          exact ⟨other, List.mem_cons_of_mem _ member, between, atOther⟩

/-- A walk fails at its node or at one inside it. -/
theorem walk_error_cases {levels : Nat} {around finished : List NodeId} {node : NodeId}
    {defect : Defect} (failed : body.walk levels around finished node = .error defect) :
    (node ∈ around ∧ defect = .containsItself node) ∨
    (node ∉ around ∧ levels = 0 ∧ defect = .tooDeep node) ∨
    (body.children? node = none ∧ defect = .outOfRange node.reference) ∨
    ∃ fewer child between, levels = fewer + 1 ∧ node ∉ around ∧ body.Contains node child ∧
      body.walk fewer (node :: around) between child = .error defect := by
  unfold walk at failed
  split at failed
  · cases failed
  · split at failed
    · rename_i isAround
      cases failed
      exact Or.inl ⟨by simpa using isAround, rfl⟩
    · rename_i notAround
      replace notAround : node ∉ around := by simpa using notAround
      cases levels with
      | zero =>
          cases failed
          exact Or.inr (Or.inl ⟨notAround, rfl, rfl⟩)
      | succ levels =>
          cases found : body.children? node with
          | none =>
              refine Or.inr (Or.inr (Or.inl ⟨rfl, ?_⟩))
              cases node <;> simpa [found, NodeId.reference] using failed.symm
          | some children =>
              cases inner : children.reverse.foldlM
                  (fun finished child => body.walk levels (node :: around) finished child)
                  finished with
              | ok inside => simp [found, inner, bind, Except.bind, pure, Except.pure] at failed
              | error other =>
                  obtain rfl : other = defect := by simpa [found, inner, bind, Except.bind] using failed
                  obtain ⟨child, member, between, atChild⟩ := foldlM_error inner
                  refine Or.inr (Or.inr (Or.inr ⟨levels, child, between, rfl, notAround, ?_, atChild⟩))
                  exact ⟨children, found, by simpa using member⟩

/-- The nodes around a node are distinct and form a path down to it. With one more level for each
of them the walk has all the levels that the nesting bound admits. -/
theorem walk_error {levels : Nat} {around finished : List NodeId} {node : NodeId} {defect : Defect}
    (path : body.Path (node :: around)) (distinct : around.Nodup)
    (room : around.length + levels = maxNesting)
    (failed : body.walk levels around finished node = .error defect) : body.Exhibits defect := by
  induction levels generalizing around finished node with
  | zero =>
      rcases walk_error_cases failed with ⟨isAround, rfl⟩ | ⟨notAround, -, rfl⟩ | ⟨missing, rfl⟩ |
        ⟨fewer, child, between, impossible, -⟩
      · exact ⟨path.reaches, path.leads isAround⟩
      · exact ⟨around, path, List.nodup_cons.mpr ⟨notAround, distinct⟩, by simpa using room⟩
      · exact ⟨path.stores, children?_eq_none.mp missing⟩
      · cases impossible
  | succ levels ih =>
      rcases walk_error_cases failed with ⟨isAround, rfl⟩ | ⟨-, impossible, -⟩ | ⟨missing, rfl⟩ |
        ⟨fewer, child, between, same, notAround, contains, atChild⟩
      · exact ⟨path.reaches, path.leads isAround⟩
      · cases impossible
      · exact ⟨path.stores, children?_eq_none.mp missing⟩
      · cases same
        apply ih (.inside contains path) (List.nodup_cons.mpr ⟨notAround, distinct⟩) _ atChild
        rw [List.length_cons]
        omega

/-- Whatever defect is found, the body has it. -/
theorem validate_error {defect : Defect} (rejected : body.validate = .error defect) :
    body.Exhibits defect := by
  unfold validate at rejected
  split at rejected
  · rename_i reference found
    cases rejected
    have uncovered := List.find?_some found
    exact ⟨stores_of_listed (List.mem_of_find?_eq_some found), by simpa using uncovered⟩
  · cases walked : body.walk maxNesting [] [] (.stmt body.root) with
    | ok nodes => simp [walked, Except.map] at rejected
    | error other =>
        obtain rfl : other = defect := by simpa [walked, Except.map] using rejected
        exact walk_error .root List.nodup_nil (by simp) walked

/-- The check tells the truth. No node inside the root of a valid body lies inside itself, a body
has the defect that it is rejected for, and a body is valid if its numbers point into their arenas,
no node inside the root lies inside itself, and no path from the root exceeds the nesting bound. -/
theorem validate_truthful (body : Body) :
    (body.validate = .ok () →
      ∀ node, body.Reaches node → ¬Relation.TransGen body.Contains node node) ∧
    (∀ defect, body.validate = .error defect → body.Exhibits defect) ∧
    ((∀ reference, body.Stores reference → body.covers reference = true) →
      (∀ node, body.Reaches node → ¬Relation.TransGen body.Contains node node) →
      (∀ path, body.Path path → path.length ≤ maxNesting) → body.validate = .ok ()) := by
  refine ⟨fun valid node reached => valid_acyclic valid reached,
    fun defect rejected => validate_error rejected, fun covered acyclic shallow => ?_⟩
  cases verdict : body.validate with
  | ok result => rfl
  | error defect =>
      exfalso
      have exhibits := validate_error verdict
      cases defect with
      | outOfRange reference => exact absurd (covered reference exhibits.1) (by simp [exhibits.2])
      | containsItself node => exact acyclic node exhibits.1 exhibits.2
      | tooDeep node =>
          obtain ⟨around, path, -, length⟩ := exhibits
          have bound := shallow _ path
          omega

end Body

end NullFlow
