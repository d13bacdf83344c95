import Mathlib.Logic.Relation
import NullFlow.Body.Validity
/-!
What validity of a body means. The walk that checks a body lists its nodes so that every node comes
after everything inside it. Such a list gives an induction over all nodes of the body.
-/

namespace NullFlow

namespace Body

variable (body : Body)

/-- The child lies directly inside the parent. -/
def Contains (parent child : NodeId) : Prop :=
  ∃ children, body.children? parent = some children ∧ child ∈ children

/-- The node lies inside the root, or is the root. -/
def Reaches (node : NodeId) : Prop := Relation.ReflTransGen body.Contains (.stmt body.root) node

/-- The nodes are distinct, and what is inside a node stands behind it. -/
def Founded : List NodeId → Prop
  | [] => True
  | node :: rest => node ∉ rest ∧
      (∃ children, body.children? node = some children ∧ ∀ child ∈ children, child ∈ rest) ∧
      Founded rest

variable {body}

/-- No node is finished twice. -/
theorem Founded.nodup {nodes : List NodeId} (founded : body.Founded nodes) : nodes.Nodup := by
  induction nodes with
  | nil => exact List.nodup_nil
  | cons node rest ih => exact List.nodup_cons.mpr ⟨founded.1, ih founded.2.2⟩

/-- The children of a finished node are finished. -/
theorem Founded.children {nodes : List NodeId} (founded : body.Founded nodes) {node : NodeId}
    (member : node ∈ nodes) :
    ∃ children, body.children? node = some children ∧ ∀ child ∈ children, child ∈ nodes := by
  induction nodes with
  | nil => simp at member
  | cons head rest ih =>
      obtain ⟨notBehind, ⟨children, found, behind⟩, others⟩ := founded
      rcases List.mem_cons.mp member with rfl | later
      · exact ⟨children, found, fun child inside => List.mem_cons_of_mem _ (behind child inside)⟩
      · obtain ⟨children, found, behind⟩ := ih others later
        exact ⟨children, found, fun child inside => List.mem_cons_of_mem _ (behind child inside)⟩

/-- If the root is finished, so is everything that it reaches. -/
theorem Founded.reached {nodes : List NodeId} (founded : body.Founded nodes)
    (hasRoot : .stmt body.root ∈ nodes) {node : NodeId} (reached : body.Reaches node) :
    node ∈ nodes := by
  induction reached with
  | refl => exact hasRoot
  | tail earlier contains ih =>
      obtain ⟨children, found, inside⟩ := contains
      obtain ⟨others, same, behind⟩ := founded.children ih
      obtain rfl : children = others := by simpa [found] using same
      exact behind _ inside

/-- What holds of a node if it holds of everything inside the node holds of all nodes. -/
theorem Founded.fromInside {motive : NodeId → Prop}
    (step : ∀ node children, body.children? node = some children →
      (∀ child ∈ children, motive child) → motive node)
    {nodes : List NodeId} (founded : body.Founded nodes) : ∀ node ∈ nodes, motive node := by
  induction nodes with
  | nil => simp
  | cons head rest ih =>
      obtain ⟨notBehind, ⟨children, found, behind⟩, others⟩ := founded
      intro node member
      rcases List.mem_cons.mp member with rfl | later
      · exact step _ children found fun child inside => ih others child (behind child inside)
      · exact ih others node later

/-- A walk adds nodes to the finished ones and none of those around it. -/
structure Walked (body : Body) (path finished result : List NodeId) : Prop where
  founded : body.Founded result
  keeps : ∀ node ∈ finished, node ∈ result
  fresh : ∀ node ∈ result, node ∈ finished ∨ node ∉ path

theorem Walked.refl {path finished : List NodeId} (founded : body.Founded finished) :
    Walked body path finished finished :=
  ⟨founded, fun _ member => member, fun _ member => Or.inl member⟩

/-- Walks go on from what earlier walks have finished. -/
theorem Walked.trans {path first second third : List NodeId} (early : Walked body path first second)
    (late : Walked body path second third) : Walked body path first third where
  founded := late.founded
  keeps node member := late.keeps node (early.keeps node member)
  fresh node member := (late.fresh node member).elim (early.fresh node) Or.inr

/-- A fold over children that succeeds takes the first child and goes on with the others. -/
theorem foldlM_cons_ok {step : List NodeId → NodeId → Except Defect (List NodeId)}
    {child : NodeId} {rest finished result : List NodeId}
    (walked : (child :: rest).foldlM step finished = .ok result) :
    ∃ next, step finished child = .ok next ∧ rest.foldlM step next = .ok result := by
  rw [List.foldlM_cons] at walked
  cases first : step finished child with
  | error defect => simp [first, bind, Except.bind] at walked
  | ok next => exact ⟨next, rfl, by simpa [first, bind, Except.bind] using walked⟩

/-- Walks through the children of a node one after the other. -/
theorem walked_children {path : List NodeId}
    {step : List NodeId → NodeId → Except Defect (List NodeId)}
    (each : ∀ finished child result, body.Founded finished → step finished child = .ok result →
      Walked body path finished result ∧ child ∈ result)
    {children finished result : List NodeId} (founded : body.Founded finished)
    (walked : children.foldlM step finished = .ok result) :
    Walked body path finished result ∧ ∀ child ∈ children, child ∈ result := by
  induction children generalizing finished with
  | nil =>
      obtain rfl : finished = result := by simpa [pure, Except.pure] using walked
      exact ⟨.refl founded, by simp⟩
  | cons child rest ih =>
      obtain ⟨next, first, others⟩ := foldlM_cons_ok walked
      obtain ⟨early, hasChild⟩ := each finished child next founded first
      obtain ⟨late, hasRest⟩ := ih early.founded others
      refine ⟨early.trans late, fun other member => ?_⟩
      rcases List.mem_cons.mp member with rfl | later
      · exact late.keeps _ hasChild
      · exact hasRest other later

/-- A walk succeeds if the node is finished already, or else by finishing everything inside the node
and then the node. -/
theorem walk_ok_cases {levels : Nat} {path finished result : List NodeId} {node : NodeId}
    (walked : body.walk levels path finished node = .ok result) :
    (node ∈ finished ∧ result = finished) ∨
    ∃ fewer children inside, levels = fewer + 1 ∧ node ∉ finished ∧ node ∉ path ∧
      body.children? node = some children ∧
      children.reverse.foldlM
        (fun finished child => body.walk fewer (node :: path) finished child) finished =
          .ok inside ∧
      result = node :: inside := by
  unfold walk at walked
  split at walked
  · rename_i isFinished
    exact Or.inl ⟨by simpa using isFinished, by simpa using walked.symm⟩
  · rename_i notFinished
    split at walked
    · cases walked
    · rename_i notAround
      simp only [List.contains_eq_mem, decide_eq_true_eq] at notFinished notAround
      cases levels with
      | zero => cases walked
      | succ fewer =>
          cases found : body.children? node with
          | none => cases node <;> simp [found] at walked
          | some children =>
              simp only [found] at walked
              cases inner : children.reverse.foldlM
                  (fun finished child => body.walk fewer (node :: path) finished child)
                  finished with
              | error defect => simp [inner, bind, Except.bind] at walked
              | ok inside =>
                  refine Or.inr ⟨fewer, children, inside, rfl, notFinished, notAround, rfl, inner,
                    ?_⟩
                  simpa [inner, bind, Except.bind, pure, Except.pure] using walked.symm

/-- A finished node is not walked again. -/
theorem walk_finished {levels : Nat} {around finished : List NodeId} {node : NodeId}
    (isFinished : node ∈ finished) : body.walk levels around finished node = .ok finished := by
  unfold walk
  simp [isFinished]

/-- A walk that succeeds has finished its node and everything below. -/
theorem walk_walked {levels : Nat} {path finished result : List NodeId} {node : NodeId}
    (founded : body.Founded finished)
    (walked : body.walk levels path finished node = .ok result) :
    Walked body path finished result ∧ node ∈ result := by
  induction levels generalizing path finished result node with
  | zero =>
      rcases walk_ok_cases walked with ⟨isFinished, rfl⟩ | ⟨fewer, children, inside, impossible, -⟩
      · exact ⟨.refl founded, isFinished⟩
      · cases impossible
  | succ levels ih =>
      rcases walk_ok_cases walked with ⟨isFinished, rfl⟩ |
        ⟨fewer, children, inside, same, notFinished, notAround, found, inner, rfl⟩
      · exact ⟨.refl founded, isFinished⟩
      · cases same
        obtain ⟨early, hasChildren⟩ := walked_children
          (fun _ _ _ founded ran => ih founded ran) founded inner
        have isNew : node ∉ inside := fun member =>
          (early.fresh node member).elim notFinished (by simp)
        have isBehind : ∀ child ∈ children, child ∈ inside := fun child member =>
          hasChildren child (by simpa using member)
        refine ⟨⟨⟨isNew, ⟨children, found, isBehind⟩, early.founded⟩, fun other member =>
          List.mem_cons_of_mem _ (early.keeps other member), fun other member => ?_⟩,
          List.mem_cons_self⟩
        rcases List.mem_cons.mp member with rfl | later
        · exact Or.inr notAround
        · refine (early.fresh other later).imp_right fun notInside around => ?_
          exact notInside (List.mem_cons_of_mem _ around)

section Valid

variable (valid : body.validate = .ok ())

include valid

/-- The walk from the root of a valid body succeeds. -/
theorem valid_walked : ∃ nodes, body.walk maxNesting [] [] (.stmt body.root) = .ok nodes := by
  unfold validate at valid
  split at valid
  · cases valid
  · cases walked : body.walk maxNesting [] [] (.stmt body.root) with
    | error defect => simp [walked, Except.map] at valid
    | ok nodes => exact ⟨nodes, rfl⟩

/-- The nodes of a valid body stand in a founded list. -/
theorem valid_founded : ∃ nodes, body.Founded nodes ∧ .stmt body.root ∈ nodes := by
  obtain ⟨nodes, walked⟩ := valid_walked valid
  obtain ⟨result, hasRoot⟩ := walk_walked (by exact trivial) walked
  exact ⟨nodes, result.founded, hasRoot⟩

/-- The numbers that a valid body stores point into their arenas. -/
theorem valid_covers {reference : Reference} (stored : reference ∈ body.references) :
    body.covers reference = true := by
  unfold validate at valid
  split at valid
  · cases valid
  · rename_i none
    simpa using List.find?_eq_none.mp none reference stored

/-- In a valid body, what passes from children to nodes holds of every reachable node. -/
theorem valid_induct {motive : NodeId → Prop}
    (step : ∀ node children, body.children? node = some children →
      (∀ child ∈ children, motive child) → motive node)
    {node : NodeId} (reached : body.Reaches node) : motive node := by
  obtain ⟨nodes, founded, hasRoot⟩ := valid_founded valid
  exact founded.fromInside step node (founded.reached hasRoot reached)

end Valid

end Body
end NullFlow
