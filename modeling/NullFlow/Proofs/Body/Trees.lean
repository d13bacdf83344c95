import Mathlib.Data.List.Nodup
import Mathlib.Data.List.Perm.Subperm
import NullFlow.Body.Tree
import NullFlow.Proofs.Body.Reach
/-!
Valid bodies have trees: every statement inside the root has a tree over the numbers of the body,
and the body itself is a method.
-/

namespace NullFlow

section Parts

variable {Item Result : Type} {step : Item → Option Result}

/-- The function has an answer for every item. -/
def Answers (step : Item → Option Result) (items : List Item) : Prop :=
  ∀ item ∈ items, ∃ result, step item = some result

theorem Answers.head {item : Item} {rest : List Item} (answers : Answers step (item :: rest)) :
    ∃ result, step item = some result := answers item List.mem_cons_self

theorem Answers.tail {item : Item} {rest : List Item} (answers : Answers step (item :: rest)) :
    Answers step rest := fun other member => answers other (List.mem_cons_of_mem _ member)

theorem Answers.left {first second : List Item} (answers : Answers step (first ++ second)) :
    Answers step first := fun item member => answers item (List.mem_append_left _ member)

theorem Answers.right {first second : List Item} (answers : Answers step (first ++ second)) :
    Answers step second := fun item member => answers item (List.mem_append_right _ member)

/-- A list has results if every item has one. -/
theorem Answers.mapM {items : List Item} (answers : Answers step items) :
    ∃ results, items.mapM step = some results := by
  induction items with
  | nil => exact ⟨[], rfl⟩
  | cons item rest ih =>
      obtain ⟨result, first⟩ := answers.head
      obtain ⟨results, others⟩ := ih answers.tail
      exact ⟨result :: results, by rw [List.mapM_cons, first, others]; rfl⟩

/-- What may be missing has a result if it has one where it is there. -/
theorem Answers.resolveOption {item? : Option Item} (answers : Answers step item?.toList) :
    ∃ result?, resolveOption step item? = some result? := by
  cases item? with
  | none => exact ⟨none, rfl⟩
  | some item =>
      obtain ⟨result, found⟩ := answers.head
      exact ⟨some result, by rw [NullFlow.resolveOption, found]; rfl⟩

/-- A statement has a tree if its parts have trees. -/
theorem Statement.tree?_exists {Leaf Part : Type} {leaf? : Option Leaf}
    {expr : ExprId → Option Part} {child : StmtId → Option (Stmt Leaf Part)} {stmt : Statement}
    (leaf : (∃ target value?, stmt.kind = .declare target value?) ∨
      (∃ value, stmt.kind = .evaluate value) → ∃ leaf, leaf? = some leaf)
    (exprs : Answers expr stmt.kind.childExprs) (stmts : Answers child stmt.kind.childStmts) :
    ∃ tree, stmt.tree? leaf? expr child = some tree := by
  obtain ⟨kind, span⟩ := stmt
  unfold Statement.tree?
  cases kind with
  | declare target value? =>
      obtain ⟨leaf, rfl⟩ := leaf (.inl ⟨target, value?, rfl⟩)
      exact ⟨_, rfl⟩
  | evaluate value =>
      obtain ⟨leaf, rfl⟩ := leaf (.inr ⟨value, rfl⟩)
      exact ⟨_, rfl⟩
  | block inner =>
      have answers : Answers child inner := stmts
      obtain ⟨trees, found⟩ := answers.mapM
      exact ⟨_, by simp [found]; rfl⟩
  | ifElse condition thenBranch elseBranch? =>
      obtain ⟨test, atTest⟩ := exprs.head
      obtain ⟨taken, atTaken⟩ := stmts.head
      cases elseBranch? with
      | none => exact ⟨_, by simp [atTest, atTaken]; rfl⟩
      | some elseBranch =>
          obtain ⟨other, atOther⟩ := stmts.tail.head
          exact ⟨_, by simp [atTest, atTaken, atOther]; rfl⟩
  | whileLoop condition loop =>
      obtain ⟨test, atTest⟩ := exprs.head
      obtain ⟨inner, atInner⟩ := stmts.head
      exact ⟨_, by simp [atTest, atInner]; rfl⟩
  | doWhile loop condition =>
      obtain ⟨test, atTest⟩ := exprs.head
      obtain ⟨inner, atInner⟩ := stmts.head
      exact ⟨_, by simp [atTest, atInner]; rfl⟩
  | forLoop init condition? updates loop =>
      obtain ⟨prepared, atInit⟩ := stmts.left.mapM
      obtain ⟨inner, atInner⟩ := stmts.right.head
      obtain ⟨test?, atTest⟩ := exprs.left.resolveOption
      obtain ⟨steps, atUpdates⟩ := exprs.right.mapM
      exact ⟨_, by simp [atInit, atInner, atTest, atUpdates]; rfl⟩
  | switch scrutinee arms =>
      obtain ⟨value, atValue⟩ := exprs.head
      have answers : Answers (fun arm : Arm StmtId => do
          return (⟨arm.pattern?, ← arm.body.mapM child⟩ : Arm (Stmt Leaf Part))) arms := by
        intro arm member
        have inner : Answers child arm.body := fun id inside =>
          stmts id (List.mem_flatMap.mpr ⟨arm, member, inside⟩)
        obtain ⟨trees, found⟩ := inner.mapM
        exact ⟨⟨arm.pattern?, trees⟩, by simp [found]⟩
      obtain ⟨trees, found⟩ := answers.mapM
      refine ⟨.switch value trees, ?_⟩
      simp only [atValue, Option.pure_def, Option.bind_eq_bind, Option.bind_some] at found ⊢
      rw [found]
      rfl
  | breakOut => exact ⟨_, rfl⟩
  | continueLoop => exact ⟨_, rfl⟩
  | empty => exact ⟨_, rfl⟩
  | returnValue value? =>
      obtain ⟨value?, found⟩ := exprs.resolveOption
      exact ⟨_, by simp [found]; rfl⟩
  | throwValue value? =>
      obtain ⟨value?, found⟩ := exprs.resolveOption
      exact ⟨_, by simp [found]; rfl⟩

end Parts

namespace Body

variable {body : Body}

/-- The number of a statement node. -/
def stmtNumber? : NodeId → Option StmtId
  | .expr _ => none
  | .stmt id => some id

/-- The number of statements among the nodes. -/
def stmtCount (nodes : List NodeId) : Nat := (nodes.filterMap stmtNumber?).length

/-- The children of a statement are its statements and its expressions. -/
theorem children?_stmt {id : StmtId} {children : List NodeId}
    (found : body.children? (.stmt id) = some children) :
    ∃ stmt, body.stmts[id]? = some stmt ∧
      children = stmt.kind.childStmts.map .stmt ++ stmt.kind.childExprs.map .expr := by
  obtain ⟨stmt, atStmt, rfl⟩ := Option.map_eq_some_iff.mp found
  exact ⟨stmt, atStmt, rfl⟩

/-- A founded list has at most as many statements as the arena. -/
theorem Founded.stmtCount_le {nodes : List NodeId} (founded : body.Founded nodes) :
    stmtCount nodes ≤ body.stmts.size := by
  have distinct : (nodes.filterMap stmtNumber?).Nodup := by
    refine List.Nodup.filterMap (fun first second number atFirst atSecond => ?_) founded.nodup
    cases first <;> cases second <;> simp_all [stmtNumber?]
  have inside : nodes.filterMap stmtNumber? ⊆ List.range body.stmts.size := by
    intro id member
    obtain ⟨node, inNodes, isStmt⟩ := List.mem_filterMap.mp member
    obtain ⟨children, found, _⟩ := founded.children inNodes
    cases node with
    | expr other => cases isStmt
    | stmt other =>
        obtain rfl : other = id := by simpa [stmtNumber?] using isStmt
        obtain ⟨stmt, atStmt, _⟩ := children?_stmt found
        exact List.mem_range.mpr (Array.getElem?_eq_some_iff.mp atStmt).1
  simpa [stmtCount] using (distinct.subperm inside).length_le

/-- A path down through statements is no longer than the list of all nodes inside. -/
theorem Founded.stmtTreeTo?_exists {nodes : List NodeId} (founded : body.Founded nodes) :
    ∀ id, .stmt id ∈ nodes → ∀ depth, stmtCount nodes ≤ depth →
    ∃ tree, body.stmtTreeTo? depth id = some tree := by
  induction nodes with
  | nil => simp
  | cons head rest ih =>
      obtain ⟨notBehind, ⟨children, found, behind⟩, others⟩ := founded
      intro id member depth enough
      rcases List.mem_cons.mp member with rfl | later
      · have counted : stmtCount (.stmt id :: rest) = stmtCount rest + 1 := rfl
        obtain ⟨depth, rfl⟩ : ∃ fewer, depth = fewer + 1 := ⟨depth - 1, by omega⟩
        obtain ⟨stmt, atStmt, rfl⟩ := children?_stmt found
        have stmts : Answers (body.stmtTreeTo? depth) stmt.kind.childStmts := fun child inside =>
          ih others child (behind _ (by simp [inside])) depth (by omega)
        obtain ⟨tree, made⟩ :
            ∃ tree, stmt.tree? (some id) some (body.stmtTreeTo? depth) = some tree :=
          Statement.tree?_exists (fun _ => ⟨id, rfl⟩) (fun id _ => ⟨id, rfl⟩) stmts
        exact ⟨tree, by rw [stmtTreeTo?, atStmt]; exact made⟩
      · have fewer : stmtCount rest ≤ stmtCount (head :: rest) := by
          cases head with
          | expr other => exact Nat.le_refl _
          | stmt other => exact Nat.le_succ _
        exact ih others id later depth (by omega)

/-- Every statement inside a valid body has a tree. -/
theorem stmtTree?_exists (valid : body.validate = .ok ()) {id : StmtId}
    (reached : body.Reaches (.stmt id)) : ∃ tree, body.stmtTree? id = some tree := by
  obtain ⟨nodes, founded, hasRoot⟩ := valid_founded valid
  exact founded.stmtTreeTo?_exists id (founded.reached hasRoot reached) _ founded.stmtCount_le

end Body
end NullFlow
