import Mathlib.Logic.Function.Basic
import NullFlow.Proofs.Body.References
/-!
The check of the nesting with a stack. A search keeps a stack of nodes to enter and nodes to leave, a
mark on every node and a counter of the levels. It comes to an end with the verdict of the recursive
walk: the marks tell the nodes around the current one from the finished ones, and the counter is the
number of the nodes around.
-/

namespace NullFlow

/-- How far the search has come with a node. -/
inductive NodeMark where
  | unseen
  | onPath
  | done

/-- An entry of the stack: a node to enter, or to leave. -/
structure Visit where
  node : NodeId
  leaving : Bool

structure TreeSearch where
  marks : NodeId → NodeMark
  /-- What is still to do, the next visit first. -/
  stack : List Visit
  depth : Nat

namespace Body

section Search

variable (body : Body)

def startSearch : TreeSearch := ⟨fun _ => .unseen, [⟨.stmt body.root, false⟩], 0⟩

/-- Takes the next visit from the stack. -/
def searchStep (search : TreeSearch) : Except Defect TreeSearch :=
  match search.stack with
  | [] => .ok search
  | ⟨node, true⟩ :: rest =>
      .ok ⟨Function.update search.marks node .done, rest, search.depth - 1⟩
  | ⟨node, false⟩ :: rest =>
      match search.marks node with
      | .done => .ok { search with stack := rest }
      | .onPath => .error (.containsItself node)
      | .unseen =>
          if maxNesting < search.depth + 1 then .error (.tooDeep node)
          else
            match body.children? node with
            | none => .error (.outOfRange node.reference)
            | some children =>
                .ok ⟨Function.update search.marks node .onPath,
                  children.reverse.map (⟨·, false⟩) ++ ⟨node, true⟩ :: rest, search.depth + 1⟩

/-- Empties the stack. There is no verdict yet if more steps are needed. -/
def searchTo : Nat → TreeSearch → Option (Except Defect Unit)
  | steps, search =>
      if search.stack.isEmpty then some (.ok ())
      else
        match steps with
        | 0 => none
        | steps + 1 =>
            match body.searchStep search with
            | .ok next => searchTo steps next
            | .error defect => some (.error defect)

/-- The check of a body with a stack, in so many steps. -/
def validateTo (steps : Nat) : Option (Except Defect Unit) :=
  match body.references.find? fun reference => !body.covers reference with
  | some reference => some (.error (.outOfRange reference))
  | none => body.searchTo steps body.startSearch

end Search

section Simulation

variable {body : Body}

/-- The verdicts of a search that has come to an outcome. -/
def verdictAfter (body : Body) (outcome : Except Defect TreeSearch) (steps : Nat) :
    Option (Except Defect Unit) :=
  match outcome with
  | .ok next => body.searchTo steps next
  | .error defect => some (.error defect)

/-- The search comes to the outcome after some steps. -/
def Comes (body : Body) (search : TreeSearch) (outcome : Except Defect TreeSearch) : Prop :=
  ∃ delay, ∀ steps, body.searchTo (steps + delay) search = body.verdictAfter outcome steps

theorem Comes.refl (search : TreeSearch) : body.Comes search (.ok search) := ⟨0, fun _ => rfl⟩

/-- A search comes to what it comes to in parts. -/
theorem Comes.trans {search middle : TreeSearch} {outcome : Except Defect TreeSearch}
    (early : body.Comes search (.ok middle)) (late : body.Comes middle outcome) :
    body.Comes search outcome := by
  obtain ⟨delay, comes⟩ := early
  obtain ⟨more, further⟩ := late
  refine ⟨more + delay, fun steps => ?_⟩
  rw [← Nat.add_assoc, comes]
  exact further steps

/-- The marks that tell the nodes around from the finished ones. -/
def marksOf (around finished : List NodeId) (node : NodeId) : NodeMark :=
  if node ∈ finished then .done
  else if node ∈ around then .onPath
  else .unseen

/-- To enter a node puts it on the path. -/
theorem update_onPath {around finished : List NodeId} {node : NodeId} (isNew : node ∉ finished) :
    Function.update (marksOf around finished) node .onPath = marksOf (node :: around) finished := by
  funext other
  by_cases same : other = node
  · subst same
    simp [marksOf, isNew]
  · simp [marksOf, same]

/-- To leave a node takes it from the path and finishes it. -/
theorem update_done (around finished : List NodeId) (node : NodeId) :
    Function.update (marksOf (node :: around) finished) node .done =
      marksOf around (node :: finished) := by
  funext other
  by_cases same : other = node
  · subst same
    simp [marksOf]
  · simp [marksOf, same]

/-- The search in the state of the recursive walk, with visits still to do. -/
def searchAt (around finished : List NodeId) (stack : List Visit) : TreeSearch :=
  ⟨marksOf around finished, stack, around.length⟩

section Steps

variable {around finished : List NodeId} {node : NodeId} {visit : Visit} {rest : List Visit}

/-- A search with something to do comes to the outcome of its next step. -/
theorem Comes.step {outcome : Except Defect TreeSearch}
    (steps : body.searchStep (searchAt around finished (visit :: rest)) = outcome) :
    body.Comes (searchAt around finished (visit :: rest)) outcome := by
  refine ⟨1, fun fuel => ?_⟩
  rw [searchTo, steps]
  rfl

/-- A node that was seen is skipped or closes a cycle, as in the recursive walk. -/
theorem comes_seen (seen : node ∈ finished ∨ node ∈ around) (levels : Nat) :
    body.Comes (searchAt around finished (⟨node, false⟩ :: rest))
      ((body.walk levels around finished node).map fun result => searchAt around result rest) := by
  apply Comes.step
  by_cases isFinished : node ∈ finished
  · rw [walk_finished isFinished]
    simp only [searchStep, searchAt, marksOf, if_pos isFinished]
    rfl
  · have isAround := seen.resolve_left isFinished
    have cyclic : body.walk levels around finished node = .error (.containsItself node) := by
      unfold walk
      simp [isFinished, isAround]
    rw [cyclic]
    simp only [searchStep, searchAt, marksOf, if_neg isFinished, if_pos isAround]
    rfl

/-- A node that was not seen is entered, unless it lies too deep. -/
theorem searchStep_unseen (unseen : ¬(node ∈ finished ∨ node ∈ around)) :
    body.searchStep (searchAt around finished (⟨node, false⟩ :: rest)) =
      if maxNesting < around.length + 1 then .error (.tooDeep node)
      else
        match body.children? node with
        | none => .error (.outOfRange node.reference)
        | some children => .ok (searchAt (node :: around) finished
            (children.reverse.map (⟨·, false⟩) ++ ⟨node, true⟩ :: rest)) := by
  obtain ⟨notFinished, notAround⟩ := not_or.mp unseen
  have mark : marksOf around finished node = .unseen := by
    rw [marksOf, if_neg notFinished, if_neg notAround]
  simp only [searchStep, searchAt, mark, update_onPath notFinished, List.length_cons]

/-- The recursive walk enters it too, unless no level is left. -/
theorem walk_unseen (unseen : ¬(node ∈ finished ∨ node ∈ around)) (levels : Nat) :
    body.walk levels around finished node =
      match levels with
      | 0 => .error (.tooDeep node)
      | levels + 1 =>
          match body.children? node with
          | none => .error (.outOfRange node.reference)
          | some children =>
              (children.reverse.foldlM (body.walk levels (node :: around)) finished).map
                (node :: ·) := by
  obtain ⟨notFinished, notAround⟩ := not_or.mp unseen
  unfold walk
  simp only [List.contains_eq_mem, notFinished, notAround, decide_false, Bool.false_eq_true,
    if_false]
  cases levels with
  | zero => rfl
  | succ levels =>
      cases body.children? node with
      | none => cases node <;> rfl
      | some children => cases node <;> rfl

/-- A node that is met for the second time is finished. -/
theorem searchStep_leave :
    body.searchStep (searchAt (node :: around) finished (⟨node, true⟩ :: rest)) =
      .ok (searchAt around (node :: finished) rest) := by
  simp only [searchStep, searchAt, update_done, List.length_cons, Nat.add_sub_cancel]

end Steps

/-- The visits of children follow the recursive walks of the children. -/
theorem comes_children {around : List NodeId}
    {walk : List NodeId → NodeId → Except Defect (List NodeId)}
    (each : ∀ finished child rest, body.Comes (searchAt around finished (⟨child, false⟩ :: rest))
      ((walk finished child).map fun result => searchAt around result rest))
    (children finished : List NodeId) (rest : List Visit) :
    body.Comes (searchAt around finished (children.map (⟨·, false⟩) ++ rest))
      ((children.foldlM walk finished).map fun result => searchAt around result rest) := by
  induction children generalizing finished with
  | nil => exact .refl _
  | cons child others ih =>
      have first := each finished child (others.map (⟨·, false⟩) ++ rest)
      rw [List.foldlM_cons]
      cases walked : walk finished child with
      | error defect =>
          rw [walked] at first
          exact first
      | ok result =>
          rw [walked] at first
          exact first.trans (ih result)

/-- The search visits a node as the recursive walk does. The levels that are left to the walk and
the depth of the search add up to the bound. -/
theorem comes_walk {levels : Nat} {around : List NodeId}
    (room : around.length + levels = maxNesting) (finished : List NodeId) (node : NodeId)
    (rest : List Visit) :
    body.Comes (searchAt around finished (⟨node, false⟩ :: rest))
      ((body.walk levels around finished node).map fun result => searchAt around result rest) := by
  induction levels generalizing around finished node rest with
  | zero =>
      by_cases seen : node ∈ finished ∨ node ∈ around
      · exact comes_seen seen 0
      · rw [walk_unseen seen]
        exact .step ((searchStep_unseen seen).trans (if_pos (by omega)))
  | succ levels ih =>
      by_cases seen : node ∈ finished ∨ node ∈ around
      · exact comes_seen seen (levels + 1)
      · rw [walk_unseen seen]
        have enters : body.searchStep (searchAt around finished (⟨node, false⟩ :: rest)) = _ :=
          (searchStep_unseen seen).trans (if_neg (by omega))
        dsimp only
        cases found : body.children? node with
        | none =>
            rw [found] at enters
            exact .step enters
        | some children =>
            rw [found] at enters
            have below : (node :: around).length + levels = maxNesting := by
              rw [List.length_cons]
              omega
            have inside := comes_children (ih below) children.reverse finished (⟨node, true⟩ :: rest)
            refine (Comes.step enters).trans ?_
            dsimp only
            cases walked : children.reverse.foldlM (body.walk levels (node :: around)) finished with
            | error defect =>
                rw [walked] at inside
                exact inside
            | ok result =>
                rw [walked] at inside
                exact inside.trans (.step searchStep_leave)

/-- With enough steps the search ends with the verdict of the walk from the root, and more steps do
not change it. -/
theorem searchTo_eq_walk (body : Body) : ∃ enough, ∀ more,
    body.searchTo (more + enough) body.startSearch =
      some ((body.walk maxNesting [] [] (.stmt body.root)).map fun _ => ()) := by
  have room : ([] : List NodeId).length + maxNesting = maxNesting := Nat.zero_add _
  obtain ⟨enough, comes⟩ : body.Comes (searchAt [] [] [⟨.stmt body.root, false⟩]) _ :=
    comes_walk room [] (.stmt body.root) []
  refine ⟨enough, fun more => (comes more).trans ?_⟩
  cases body.walk maxNesting [] [] (.stmt body.root) with
  | error defect => rfl
  | ok nodes =>
      change body.searchTo more ⟨_, [], _⟩ = _
      rw [searchTo.eq_def]
      rfl

/-- The check with a stack comes to the verdict of the recursive check. -/
theorem validateTo_eq_validate (body : Body) : ∃ enough, ∀ more,
    body.validateTo (more + enough) = some body.validate := by
  obtain ⟨enough, verdict⟩ := body.searchTo_eq_walk
  refine ⟨enough, fun more => ?_⟩
  rw [validateTo, validate]
  cases body.references.find? fun reference => !body.covers reference with
  | some reference => rfl
  | none => exact verdict more

end Simulation

end Body

end NullFlow
