import NullFlow.Proofs.Body.Trees
/-!
A valid body is a method. The trees of its nodes are found in rounds, and the rounds end only when
every node of which the parts have trees has a tree itself.
-/

namespace NullFlow

section Resolve

variable {Var Child Code Var' Child' Code' : Type} {child : Child → Option Child'}

/-- Arguments can be resolved if their values can. -/
theorem Answers.arguments {arguments : List (Argument Child)}
    (answers : Answers child (arguments.map Argument.value)) :
    ∃ results, arguments.mapM (Argument.resolve child) = some results := by
  have each : Answers (Argument.resolve child) arguments := by
    intro argument member
    obtain ⟨value, found⟩ := answers _ (List.mem_map_of_mem member)
    exact ⟨⟨value, argument.name?⟩, by rw [Argument.resolve, found]; rfl⟩
  exact each.mapM

mutual

/-- An initializer can be resolved if its values can. -/
theorem Answers.initializer : ∀ {entry : Initializer Child}, Answers child entry.values →
    ∃ result, entry.resolve child = some result
  | .value member value, answers => by
      obtain ⟨result, found⟩ := answers.head
      exact ⟨.value member result, by rw [Initializer.resolve, found]; rfl⟩
  | .nested member entries, answers => by
      obtain ⟨results, found⟩ := Answers.initializers answers
      exact ⟨.nested member results, by rw [Initializer.resolve, found]; rfl⟩

theorem Answers.initializers : ∀ {entries : List (Initializer Child)},
    Answers child (initializerValues entries) →
    ∃ results, resolveInitializers child entries = some results
  | [], _ => ⟨[], rfl⟩
  | entry :: rest, answers => by
      obtain ⟨result, found⟩ := Answers.initializer answers.left
      obtain ⟨results, others⟩ := Answers.initializers answers.right
      exact ⟨result :: results, by rw [resolveInitializers, found, others]; rfl⟩

end

/-- A node has a tree if its parts have trees. -/
theorem Node.resolve_exists {var : Var → Option Var'} {code : Code → Option Code'}
    {node : Node Var Child Code}
    (isVar : ∀ source, node.kind = .read source → ∃ found, var source = some found)
    (children : Answers child node.kind.children)
    (value : ∀ parameters body, node.kind = .lambda parameters (.expr body) →
      ∃ found, child body = some found)
    (block : ∀ parameters body, node.kind = .lambda parameters (.block body) →
      ∃ found, code body = some found) :
    ∃ result, node.resolve var child code = some result := by
  obtain ⟨kind, ty?, span⟩ := node
  suffices resolved : ∃ result, kind.resolve var child code = some result by
    obtain ⟨result, found⟩ := resolved
    exact ⟨⟨result, ty?, span⟩, by rw [Node.resolve, found]; rfl⟩
  cases kind with
  | read source =>
      obtain ⟨found, isFound⟩ := isVar source rfl
      exact ⟨_, by simp [ExprKind.resolve, isFound]; rfl⟩
  | this => exact ⟨_, rfl⟩
  | literal value => exact ⟨_, rfl⟩
  | defaultValue => exact ⟨_, rfl⟩
  | cast operand =>
      obtain ⟨inner, found⟩ := children.head
      exact ⟨_, by simp [ExprKind.resolve, found]; rfl⟩
  | unary operator operand =>
      obtain ⟨inner, found⟩ := children.head
      exact ⟨_, by simp [ExprKind.resolve, found]; rfl⟩
  | test operand pattern =>
      obtain ⟨inner, found⟩ := children.head
      exact ⟨_, by simp [ExprKind.resolve, found]; rfl⟩
  | suppress operand =>
      obtain ⟨inner, found⟩ := children.head
      exact ⟨_, by simp [ExprKind.resolve, found]; rfl⟩
  | member receiver? member =>
      obtain ⟨receiver, found⟩ := children.resolveOption
      exact ⟨_, by simp [ExprKind.resolve, found]; rfl⟩
  | index receiver position =>
      obtain ⟨array, atReceiver⟩ := children.head
      obtain ⟨index, atPosition⟩ := children.tail.head
      exact ⟨_, by simp [ExprKind.resolve, atReceiver, atPosition]; rfl⟩
  | call receiver? method arguments =>
      obtain ⟨receiver, atReceiver⟩ := children.left.resolveOption
      obtain ⟨values, atArguments⟩ := children.right.arguments
      exact ⟨_, by simp [ExprKind.resolve, atReceiver, atArguments]; rfl⟩
  | create constructor? arguments initializers =>
      obtain ⟨values, atArguments⟩ := children.left.arguments
      obtain ⟨entries, atEntries⟩ := children.right.initializers
      exact ⟨_, by simp [ExprKind.resolve, atArguments, atEntries]; rfl⟩
  | array element? items =>
      have answers : Answers child items := children
      obtain ⟨values, found⟩ := answers.mapM
      exact ⟨_, by simp [ExprKind.resolve, found]; rfl⟩
  | conditional condition whenTrue whenFalse =>
      obtain ⟨test, atTest⟩ := children.head
      obtain ⟨first, atFirst⟩ := children.tail.head
      obtain ⟨second, atSecond⟩ := children.tail.tail.head
      exact ⟨_, by simp [ExprKind.resolve, atTest, atFirst, atSecond]; rfl⟩
  | coalesce left right =>
      obtain ⟨first, atFirst⟩ := children.head
      obtain ⟨second, atSecond⟩ := children.tail.head
      exact ⟨_, by simp [ExprKind.resolve, atFirst, atSecond]; rfl⟩
  | binary operator left right =>
      obtain ⟨first, atFirst⟩ := children.head
      obtain ⟨second, atSecond⟩ := children.tail.head
      exact ⟨_, by simp [ExprKind.resolve, atFirst, atSecond]; rfl⟩
  | assign target value =>
      obtain ⟨first, atFirst⟩ := children.head
      obtain ⟨second, atSecond⟩ := children.tail.head
      exact ⟨_, by simp [ExprKind.resolve, atFirst, atSecond]; rfl⟩
  | lambda parameters body =>
      cases body with
      | expr inner =>
          obtain ⟨found, isFound⟩ := value parameters inner rfl
          exact ⟨_, by simp [ExprKind.resolve, LambdaBody.resolve, isFound]; rfl⟩
      | block inner =>
          obtain ⟨found, isFound⟩ := block parameters inner rfl
          exact ⟨_, by simp [ExprKind.resolve, LambdaBody.resolve, isFound]; rfl⟩
  | bad children' =>
      have answers : Answers child children' := children
      obtain ⟨values, found⟩ := answers.mapM
      exact ⟨_, by simp [ExprKind.resolve, found]; rfl⟩

end Resolve

section Rounds

variable {Item : Type}

/-- Filling gaps does not lose items. -/
theorem countP_fill_le (known : List (Option Item)) (more : Nat → Option Item) :
    known.countP Option.isSome ≤
      (known.mapIdx fun id known? => known? <|> more id).countP Option.isSome := by
  induction known generalizing more with
  | nil => simp
  | cons known? rest ih =>
      have fewer := ih fun id => more (id + 1)
      rw [List.mapIdx_cons]
      cases known? with
      | none =>
          simp only [List.countP_cons, Option.isSome_none, Bool.false_eq_true, if_false]
          omega
      | some item =>
          rw [List.countP_cons, List.countP_cons]
          exact Nat.add_le_add_right fewer 1

/-- If filling gaps finds nothing, then no gap can be filled. -/
theorem isSome_of_countP_fill {known : List (Option Item)} {more : Nat → Option Item}
    (same : (known.mapIdx fun id known? => known? <|> more id).countP Option.isSome ≤
      known.countP Option.isSome) {id : Nat} (inside : id < known.length)
    (found : (more id).isSome = true) : known[id].isSome = true := by
  induction known generalizing more id with
  | nil => simp at inside
  | cons known? rest ih =>
      have fewer := countP_fill_le rest fun id => more (id + 1)
      rw [List.mapIdx_cons, List.countP_cons, List.countP_cons] at same
      cases known? with
      | some item =>
          change _ + 1 ≤ _ + 1 at same
          cases id with
          | zero => rfl
          | succ id => exact ih (Nat.le_of_add_le_add_right same) (by simpa using inside) found
      | none =>
          change _ + (if (more 0).isSome = true then 1 else 0) ≤ _ + 0 at same
          cases id with
          | zero =>
              rw [if_pos found] at same
              omega
          | succ id =>
              exact ih (Nat.le_trans (Nat.le_add_right _ _) same) (by simpa using inside) found

/-- The gaps of an array that could be filled are those that filling closes. -/
theorem isSome_of_fill {known : Array (Option Item)} {more : Nat → Option Item}
    (same : (known.mapIdx fun id known? => known? <|> more id).countP Option.isSome ≤
      known.countP Option.isSome) {id : Nat} (inside : id < known.size)
    (found : (more id).isSome = true) : known[id]?.join.isSome = true := by
  rw [← Array.countP_toList, ← Array.countP_toList, Array.toList_mapIdx] at same
  have isKnown := isSome_of_countP_fill same (by simpa using inside) found
  rw [Array.getElem?_eq_getElem inside]
  simpa using isKnown

/-- Filling an array leaves no fewer trees in it. -/
theorem fill_le (known : Array (Option Item)) (more : Nat → Option Item) :
    known.countP Option.isSome ≤
      (known.mapIdx fun id known? => known? <|> more id).countP Option.isSome := by
  rw [← Array.countP_toList, ← Array.countP_toList, Array.toList_mapIdx]
  exact countP_fill_le known.toList more

end Rounds

namespace Body

variable {body : Body} {forest : Forest}

section Growth

/-- The forest has a place for the tree of every node. -/
structure Spans (body : Body) (forest : Forest) : Prop where
  exprs : forest.exprs.size = body.exprs.size
  codes : forest.codes.size = body.stmts.size

/-- A forest that grows still spans its body. -/
theorem Spans.grow (spans : body.Spans forest) : body.Spans (body.grow forest) where
  exprs := by simp [Body.grow, spans.exprs]
  codes := by simp [Body.grow, spans.codes]

/-- A forest has a tree for every node at most. -/
theorem Spans.size_le (spans : body.Spans forest) :
    forest.size ≤ body.exprs.size + body.stmts.size := by
  have exprs : forest.exprs.countP Option.isSome ≤ forest.exprs.size := Array.countP_le_size
  have codes : forest.codes.countP Option.isSome ≤ forest.codes.size := Array.countP_le_size
  rw [Forest.size, ← spans.exprs, ← spans.codes]
  omega

theorem size_le_grow (body : Body) (forest : Forest) : forest.size ≤ (body.grow forest).size :=
  Nat.add_le_add (fill_le forest.exprs (body.exprOver? forest))
    (fill_le forest.codes (body.codeOver? forest))

/-- When the rounds find no more trees, every node has a tree of which the parts have trees. -/
structure Closed (body : Body) (forest : Forest) : Prop where
  exprs : ∀ id : Nat, id < body.exprs.size → (body.exprOver? forest id).isSome = true →
    (forest.expr? id).isSome = true
  codes : ∀ id : Nat, id < body.stmts.size → (body.codeOver? forest id).isSome = true →
    (forest.code? id).isSome = true

/-- A forest that does not grow any more is closed. -/
theorem Spans.closed (spans : body.Spans forest)
    (still : (body.grow forest).size = forest.size) : body.Closed forest := by
  have exprs := fill_le forest.exprs (body.exprOver? forest)
  have codes := fill_le forest.codes (body.codeOver? forest)
  simp only [Forest.size, Body.grow] at still
  constructor
  · intro id inside found
    exact isSome_of_fill (by omega) (spans.exprs ▸ inside) found
  · intro id inside found
    exact isSome_of_fill (by omega) (spans.codes ▸ inside) found

/-- The rounds end when no tree can be added. -/
theorem growTo_closed {rounds : Nat} (spans : body.Spans forest)
    (enough : body.exprs.size + body.stmts.size ≤ forest.size + rounds) :
    body.Spans (body.growTo rounds forest) ∧ body.Closed (body.growTo rounds forest) := by
  induction rounds generalizing forest with
  | zero =>
      have most := spans.grow.size_le
      have more := size_le_grow body forest
      exact ⟨spans, spans.closed (by omega)⟩
  | succ rounds ih =>
      rw [growTo]
      split
      · rename_i still
        exact ⟨spans, spans.closed still⟩
      · rename_i grew
        have more := size_le_grow body forest
        exact ih spans.grow (by omega)

/-- The forest of a body is closed. -/
theorem forest_closed (body : Body) : body.Closed body.forest :=
  (growTo_closed ⟨by simp, by simp⟩ (Nat.le_add_left _ _)).2

end Growth

section Valid

/-- The tree of the node is known. -/
def HasTree (forest : Forest) : NodeId → Prop
  | .expr id => ∃ tree, forest.expr? id = some tree
  | .stmt id => ∃ tree, forest.code? id = some tree

variable (valid : body.validate = .ok ())
include valid

/-- A reference that is covered has its variable. -/
theorem localVar?_exists {id : LocalId} (stored : .localVar id ∈ body.references) :
    ∃ source, body.localVar? id = some source := by
  have inside : id < body.locals.size := by simpa [covers] using valid_covers valid stored
  exact ⟨_, by rw [localVar?, Array.getElem?_eq_getElem inside]; rfl⟩

/-- An expression has a tree if its children have. -/
theorem exprOver?_exists {id : ExprId} {children : List NodeId}
    (found : body.children? (.expr id) = some children)
    (each : ∀ child ∈ children, HasTree forest child) :
    ∃ tree, body.exprOver? forest id = some tree := by
  obtain ⟨expr, atExpr, rfl⟩ := Option.map_eq_some_iff.mp found
  have inArena : expr ∈ body.exprs.toList := Array.mem_toList_iff.mpr (Array.mem_of_getElem? atExpr)
  have stored : ∀ reference ∈ exprReferences expr, reference ∈ body.references := by
    intro reference member
    simp only [references, List.mem_append, List.mem_flatMap]
    exact Or.inl (Or.inr ⟨expr, inArena, member⟩)
  obtain ⟨node, resolved⟩ : ∃ node, expr.resolve body.localVar? forest.expr? forest.code? =
      some node := by
    refine Node.resolve_exists (fun source isRead => ?_) (fun child member => ?_)
      (fun parameters inner isLambda => ?_) fun parameters inner isLambda => ?_
    · exact localVar?_exists valid (stored _ (by simp [exprReferences, isRead]))
    · exact each (.expr child) (List.mem_append_left _ (List.mem_map_of_mem member))
    · exact each (.expr inner) (List.mem_append_right _ (by simp [isLambda]))
    · exact each (.stmt inner) (List.mem_append_right _ (by simp [isLambda]))
  exact ⟨.node node, by simp [exprOver?, atExpr, resolved]⟩

/-- A statement has a tree if its children have. -/
theorem codeOver?_exists {id : StmtId} {children : List NodeId}
    (found : body.children? (.stmt id) = some children)
    (each : ∀ child ∈ children, HasTree forest child) :
    ∃ tree, body.codeOver? forest id = some tree := by
  obtain ⟨stmt, atStmt, rfl⟩ := children?_stmt found
  have inArena : stmt ∈ body.stmts.toList := Array.mem_toList_iff.mpr (Array.mem_of_getElem? atStmt)
  have exprs : Answers forest.expr? stmt.kind.childExprs := fun child member =>
    each (.expr child) (List.mem_append_right _ (List.mem_map_of_mem member))
  have stmts : Answers forest.code? stmt.kind.childStmts := fun child member =>
    each (.stmt child) (List.mem_append_left _ (List.mem_map_of_mem member))
  obtain ⟨tree, made⟩ : ∃ tree, stmt.tree? (body.simple? forest.expr? stmt) forest.expr?
      forest.code? = some tree := by
    refine Statement.tree?_exists (fun isLeaf => ?_) exprs stmts
    rcases isLeaf with ⟨target, value?, isDeclare⟩ | ⟨value, isEvaluate⟩
    · have stored : .localVar target ∈ body.references := by
        simp only [references, List.mem_append, List.mem_flatMap]
        exact Or.inr ⟨stmt, inArena, by simp [stmtReferences, isDeclare]⟩
      obtain ⟨source, isSource⟩ := localVar?_exists valid stored
      rw [isDeclare] at exprs
      obtain ⟨result?, isValue⟩ := exprs.resolveOption
      exact ⟨.declare source result?, by simp [simple?, isDeclare, isSource, isValue]⟩
    · rw [isEvaluate] at exprs
      obtain ⟨result, isValue⟩ := exprs.head
      exact ⟨.evaluate result, by simp [simple?, isEvaluate, isValue]⟩
  exact ⟨tree, by simp [codeOver?, atStmt, made]⟩

/-- Every node inside a valid body has a tree. -/
theorem forest_has {node : NodeId} (reached : body.Reaches node) :
    HasTree body.forest node := by
  refine valid_induct valid (fun node children found each => ?_) reached
  cases node with
  | expr id =>
      obtain ⟨tree, isTree⟩ := exprOver?_exists valid found each
      obtain ⟨expr, atExpr, _⟩ := Option.map_eq_some_iff.mp found
      have inside := (Array.getElem?_eq_some_iff.mp atExpr).1
      exact Option.isSome_iff_exists.mp
        ((forest_closed body).exprs id inside (by rw [isTree]; rfl))
  | stmt id =>
      obtain ⟨tree, isTree⟩ := codeOver?_exists valid found each
      obtain ⟨stmt, atStmt, _⟩ := children?_stmt found
      have inside := (Array.getElem?_eq_some_iff.mp atStmt).1
      exact Option.isSome_iff_exists.mp
        ((forest_closed body).codes id inside (by rw [isTree]; rfl))

/-- A valid body is a method. -/
theorem method?_exists : ∃ method, body.method? = some method := by
  obtain ⟨code, found⟩ := forest_has valid (.refl : body.Reaches (.stmt body.root))
  exact ⟨⟨body.name, body.thisType?, body.returnType, code⟩, by simp [method?, found]⟩

end Valid

end Body

end NullFlow
