import NullFlow.Proofs.Body.Forests
import NullFlow.Proofs.Body.Shapes
/-!
Bodies that unfold to the same tree. The numbers of nodes, the nodes that several parents share and
the nodes that nobody refers to leave no trace in the trees of a body.
-/

namespace NullFlow

/-- A node without the numbers of its parts. -/
inductive NodeLabel where
  | expr (node : Node LocalId Unit Unit)
  | stmt (stmt : Statement)

/-- A node with the trees of its parts in the place of their numbers. -/
inductive NodeTree where
  | node (label : NodeLabel) (parts : List NodeTree)

namespace Body

def label? (body : Body) : NodeId → Option NodeLabel
  | .expr id => body.exprs[id]?.map fun expr => .expr expr.bare
  | .stmt id => body.stmts[id]?.map fun stmt => .stmt stmt.bare

/-- The tree that a node unfolds to, down to a depth. -/
def unfoldTo? (body : Body) : Nat → NodeId → Option NodeTree
  | 0, _ => none
  | depth + 1, node => do
      return .node (← body.label? node) (← (← body.children? node).mapM (body.unfoldTo? depth))

/-- The tree that the root unfolds to. No path through distinct nodes is longer than the arenas. -/
def unfolded? (body : Body) : Option NodeTree :=
  body.unfoldTo? (body.exprs.size + body.stmts.size) (.stmt body.root)

section Exists

variable {body : Body}

/-- A number for every node. Expressions come first. -/
def nodeNumber (body : Body) : NodeId → Nat
  | .expr id => id
  | .stmt id => body.exprs.size + id

theorem inside_of_children? {node : NodeId} {children : List NodeId}
    (found : body.children? node = some children) :
    (∃ id : Nat, node = .expr id ∧ id < body.exprs.size) ∨
      ∃ id : Nat, node = .stmt id ∧ id < body.stmts.size := by
  cases node with
  | expr id =>
      obtain ⟨expr, atId, -⟩ := Option.map_eq_some_iff.mp found
      exact Or.inl ⟨id, rfl, (Array.getElem?_eq_some_iff.mp atId).1⟩
  | stmt id =>
      obtain ⟨stmt, atId, -⟩ := children?_stmt found
      exact Or.inr ⟨id, rfl, (Array.getElem?_eq_some_iff.mp atId).1⟩

/-- A founded list is no longer than both arenas. -/
theorem Founded.length_le {nodes : List NodeId} (founded : body.Founded nodes) :
    nodes.length ≤ body.exprs.size + body.stmts.size := by
  have inArena (node : NodeId) (member : node ∈ nodes) :
      (∃ id : Nat, node = .expr id ∧ id < body.exprs.size) ∨
        ∃ id : Nat, node = .stmt id ∧ id < body.stmts.size := by
    obtain ⟨children, found, -⟩ := founded.children member
    exact inside_of_children? found
  have distinct : (nodes.map body.nodeNumber).Nodup := by
    refine founded.nodup.map_on fun first isFirst second isSecond same => ?_
    rcases inArena first isFirst with ⟨id, rfl, inside⟩ | ⟨id, rfl, inside⟩ <;>
      rcases inArena second isSecond with ⟨other, rfl, insideToo⟩ | ⟨other, rfl, insideToo⟩
    · exact congrArg NodeId.expr same
    · change id = body.exprs.size + other at same
      omega
    · change body.exprs.size + id = other at same
      omega
    · exact congrArg NodeId.stmt (Nat.add_left_cancel same)
  have inside : nodes.map body.nodeNumber ⊆ List.range (body.exprs.size + body.stmts.size) := by
    intro number member
    obtain ⟨node, inNodes, rfl⟩ := List.mem_map.mp member
    rw [List.mem_range]
    rcases inArena node inNodes with ⟨id, rfl, inside⟩ | ⟨id, rfl, inside⟩ <;>
      simp only [nodeNumber] <;> omega
  simpa using (distinct.subperm inside).length_le

/-- A node unfolds within the length of a founded list. -/
theorem Founded.unfoldTo?_exists {nodes : List NodeId} (founded : body.Founded nodes) :
    ∀ node ∈ nodes, ∀ depth, nodes.length ≤ depth → ∃ tree, body.unfoldTo? depth node = some tree := by
  induction nodes with
  | nil => simp
  | cons head rest ih =>
      obtain ⟨notBehind, ⟨children, found, behind⟩, others⟩ := founded
      intro node member depth enough
      rw [List.length_cons] at enough
      rcases List.mem_cons.mp member with rfl | later
      · obtain ⟨depth, rfl⟩ : ∃ fewer, depth = fewer + 1 := ⟨depth - 1, by omega⟩
        have answers : Answers (body.unfoldTo? depth) children := fun child inside =>
          ih others child (behind child inside) depth (by omega)
        obtain ⟨parts, areParts⟩ := answers.mapM
        obtain ⟨label, isLabel⟩ : ∃ label, body.label? node = some label := by
          cases node with
          | expr id =>
              obtain ⟨expr, atId, -⟩ := Option.map_eq_some_iff.mp found
              exact ⟨_, by rw [label?, atId]; rfl⟩
          | stmt id =>
              obtain ⟨stmt, atId, -⟩ := children?_stmt found
              exact ⟨_, by rw [label?, atId]; rfl⟩
        exact ⟨.node label parts, by rw [unfoldTo?, isLabel, found]; simp [areParts]⟩
      · exact ih others node later depth (by omega)

/-- A valid body unfolds. -/
theorem unfolded?_exists (valid : body.validate = .ok ()) : ∃ tree, body.unfolded? = some tree := by
  obtain ⟨nodes, founded, hasRoot⟩ := valid_founded valid
  exact founded.unfoldTo?_exists _ hasRoot _ founded.length_le

end Exists

/-- The trees of the nodes in one forest are their trees in the other one. -/
def Alike (small large : Forest) : NodeId → NodeId → Prop
  | .expr id, .expr other => Carries small.expr? large.expr? id other
  | .stmt id, .stmt other => Carries small.code? large.code? id other
  | _, _ => False

section Over

variable {left right : Body} {small large : Forest} (locals : left.locals = right.locals)
include locals

theorem localVar?_eq : left.localVar? = right.localVar? := by
  funext id
  rw [localVar?, localVar?, locals]

/-- Expressions with one label have the same tree over the same trees of their parts. -/
theorem exprOver?_persists {id other : ExprId} (label : left.label? (.expr id) = right.label? (.expr other))
    (parts : ∀ children others, left.children? (.expr id) = some children →
      right.children? (.expr other) = some others →
      List.Forall₂ (Alike small large) children others) :
    Persists (left.exprOver? small id) (right.exprOver? large other) := by
  intro tree made
  obtain ⟨expr, kind, atId, isKind, rfl⟩ := of_exprOver? made
  obtain ⟨another, atOther, sameBare⟩ :
      ∃ another, right.exprs[other]? = some another ∧ expr.bare = another.bare := by
    rw [label?, label?, atId] at label
    obtain ⟨another, atOther, same⟩ := Option.map_eq_some_iff.mp label.symm
    exact ⟨another, atOther, (NodeLabel.expr.inj same).symm⟩
  obtain ⟨sameKind, sameType, sameSpan⟩ := Node.mk.inj sameBare
  have pairs := parts _ _ (by rw [children?, atId]; rfl) (by rw [children?, atOther]; rfl)
  have lengths : (expr.kind.children.map NodeId.expr).length =
      (another.kind.children.map NodeId.expr).length := by
    rw [List.length_map, List.length_map, ← ExprKind.children_bare, sameKind,
      ExprKind.children_bare]
  obtain ⟨ofChildren, ofBody⟩ := forall₂_split pairs lengths
  rw [List.forall₂_map_left_iff, List.forall₂_map_right_iff] at ofChildren
  have bodies : ∀ parameters body others otherBody, expr.kind = .lambda parameters body →
      another.kind = .lambda others otherBody →
      Persists (body.resolve small.expr? small.code?) (otherBody.resolve large.expr? large.code?) := by
    intro parameters body others otherBody isLambda isOther
    rw [isLambda, isOther] at ofBody
    cases body <;> cases otherBody <;> obtain ⟨first, -⟩ := List.forall₂_cons.mp ofBody
    · exact first.bind fun _ => .refl _
    · cases first
    · cases first
    · exact first.bind fun _ => .refl _
  have resolved := ExprKind.resolve_persists sameKind ofChildren bodies kind isKind
  rw [localVar?_eq locals] at resolved
  simp [exprOver?, atOther, Node.resolve, resolved, sameType, sameSpan]

/-- Simple statements with one label have the same leaf over the same parts. -/
theorem simple?_persists {Part : Type} {expr next : ExprId → Option Part} {stmt other : Statement}
    (same : stmt.bare = other.bare)
    (exprs : List.Forall₂ (Carries expr next) stmt.kind.childExprs other.kind.childExprs) :
    Persists (left.simple? expr stmt) (right.simple? next other) := by
  obtain ⟨kind, span⟩ := stmt
  obtain ⟨otherKind, otherSpan⟩ := other
  obtain ⟨sameKind, -⟩ : kind.bare = otherKind.bare ∧ span = otherSpan := Statement.mk.inj same
  cases kind with
  | declare target value? => cases otherKind with
      | declare _ _ =>
          obtain ⟨rfl, -⟩ := StmtKind.declare.inj sameKind
          unfold simple?
          rw [localVar?_eq locals]
          exact (Persists.refl _).bind fun _ => (Persists.resolveOption exprs).bind fun _ => .refl _
      | _ => cases sameKind
  | evaluate value => cases otherKind with
      | evaluate _ =>
          obtain ⟨first, -⟩ := List.forall₂_cons.mp exprs
          exact first.bind fun _ => .refl _
      | _ => cases sameKind
  | _ => exact fun _ never => by cases never

/-- Statements with one label have the same tree over the same trees of their parts. -/
theorem codeOver?_persists {id other : StmtId}
    (label : left.label? (.stmt id) = right.label? (.stmt other))
    (parts : ∀ children others, left.children? (.stmt id) = some children →
      right.children? (.stmt other) = some others →
      List.Forall₂ (Alike small large) children others) :
    Persists (left.codeOver? small id) (right.codeOver? large other) := by
  intro tree made
  obtain ⟨stmt, atId, isTree⟩ := Option.bind_eq_some_iff.mp made
  obtain ⟨another, atOther, sameBare⟩ :
      ∃ another, right.stmts[other]? = some another ∧ stmt.bare = another.bare := by
    rw [label?, label?, atId] at label
    obtain ⟨another, atOther, same⟩ := Option.map_eq_some_iff.mp label.symm
    exact ⟨another, atOther, (NodeLabel.stmt.inj same).symm⟩
  have sameKind : stmt.kind.bare = another.kind.bare := congrArg Statement.kind sameBare
  have pairs := parts _ _ (by rw [children?, atId]; rfl) (by rw [children?, atOther]; rfl)
  have lengths : (stmt.kind.childStmts.map NodeId.stmt).length =
      (another.kind.childStmts.map NodeId.stmt).length := by
    rw [List.length_map, List.length_map, ← StmtKind.childStmts_bare, sameKind,
      StmtKind.childStmts_bare]
  obtain ⟨ofStmts, ofExprs⟩ := forall₂_split pairs lengths
  rw [List.forall₂_map_left_iff, List.forall₂_map_right_iff] at ofStmts ofExprs
  exact Option.bind_eq_some_iff.mpr ⟨another, atOther, Statement.tree?_persists sameBare
    (simple?_persists locals sameBare ofExprs) ofStmts ofExprs tree isTree⟩

end Over

section Fixed

variable {body : Body} {forest large : Forest}

/-- All trees of the first forest are in the second one. -/
structure Within (forest large : Forest) : Prop where
  exprs : ∀ id, Persists (forest.expr? id) (large.expr? id)
  codes : ∀ id, Persists (forest.code? id) (large.code? id)

theorem Within.alike (within : Within forest large) (nodes : List NodeId) :
    List.Forall₂ (Alike forest large) nodes nodes := by
  refine List.forall₂_same.mpr fun node _ => ?_
  cases node with
  | expr id => exact within.exprs id
  | stmt id => exact within.codes id

/-- With more trees there are more trees over them. -/
theorem Within.exprOver? (within : Within forest large) (id : ExprId) :
    Persists (body.exprOver? forest id) (body.exprOver? large id) :=
  exprOver?_persists rfl rfl fun children others found foundToo => by
    obtain rfl := Option.some.inj (found.symm.trans foundToo)
    exact within.alike children

/-- A larger forest has the statements of a smaller one. -/
theorem Within.codeOver? (within : Within forest large) (id : StmtId) :
    Persists (body.codeOver? forest id) (body.codeOver? large id) :=
  codeOver?_persists rfl rfl fun children others found foundToo => by
    obtain rfl := Option.some.inj (found.symm.trans foundToo)
    exact within.alike children

/-- Filling an array keeps what was in it. -/
theorem persists_fill {Item : Type} (known : Array (Option Item)) (more : Nat → Option Item)
    (id : Nat) : Persists known[id]?.join
      (known.mapIdx fun id known? => known? <|> more id)[id]?.join := by
  intro item found
  rw [Array.getElem?_mapIdx]
  cases atId : known[id]? with
  | none =>
      rw [atId] at found
      cases found
  | some known? =>
      rw [atId] at found
      obtain rfl : known? = some item := found
      rfl

/-- A forest keeps its trees when it grows. -/
theorem within_grow (body : Body) (forest : Forest) : Within forest (body.grow forest) where
  exprs id := persists_fill forest.exprs (body.exprOver? forest) id
  codes id := persists_fill forest.codes (body.codeOver? forest) id

/-- Every tree of the forest is made of trees of the forest. -/
structure Consistent (body : Body) (forest : Forest) : Prop where
  exprs : ∀ id, Persists (forest.expr? id) (body.exprOver? forest id)
  codes : ∀ id, Persists (forest.code? id) (body.codeOver? forest id)

/-- A forest whose trees are those of the body stays so when it grows. -/
theorem Consistent.grow (consistent : body.Consistent forest) :
    body.Consistent (body.grow forest) where
  exprs id tree found := by
    have made : body.exprOver? forest id = some tree :=
      (of_fill found).elim (consistent.exprs id tree) fun isNew => isNew
    exact (within_grow body forest).exprOver? id tree made
  codes id tree found := by
    have made : body.codeOver? forest id = some tree :=
      (of_fill found).elim (consistent.codes id tree) fun isNew => isNew
    exact (within_grow body forest).codeOver? id tree made

/-- A forest grows into one whose trees are those of the body. -/
theorem growTo_consistent {rounds : Nat} (consistent : body.Consistent forest) :
    body.Consistent (body.growTo rounds forest) := by
  induction rounds generalizing forest with
  | zero => exact consistent
  | succ rounds ih =>
      rw [growTo]
      split
      · exact consistent
      · exact ih consistent.grow

/-- The trees of the forest are those of the body. -/
theorem forest_consistent (body : Body) : body.Consistent body.forest :=
  growTo_consistent ⟨fun id _ found => absurd found (nothing_known _ id),
    fun id _ found => absurd found (nothing_known _ id)⟩

/-- The tree of an expression is the one that is made of the trees of its parts. -/
theorem forest_expr? (body : Body) (id : ExprId) :
    body.forest.expr? id = body.exprOver? body.forest id := by
  cases known : body.forest.expr? id with
  | some tree => exact ((forest_consistent body).exprs id tree known).symm
  | none =>
      cases made : body.exprOver? body.forest id with
      | none => rfl
      | some tree =>
          obtain ⟨expr, _, atId, -⟩ := of_exprOver? made
          have found := (forest_closed body).exprs id (Array.getElem?_eq_some_iff.mp atId).1
            (by rw [made]; rfl)
          rw [known] at found
          cases found

theorem forest_code? (body : Body) (id : StmtId) :
    body.forest.code? id = body.codeOver? body.forest id := by
  cases known : body.forest.code? id with
  | some tree => exact ((forest_consistent body).codes id tree known).symm
  | none =>
      cases made : body.codeOver? body.forest id with
      | none => rfl
      | some tree =>
          obtain ⟨stmt, atId, -⟩ := Option.bind_eq_some_iff.mp made
          have found := (forest_closed body).codes id (Array.getElem?_eq_some_iff.mp atId).1
            (by rw [made]; rfl)
          rw [known] at found
          cases found

end Fixed

section Unfolding

/-- A node unfolds to its label with what its parts unfold to. -/
theorem unfoldTo?_succ {body : Body} {depth : Nat} {node : NodeId} {tree : NodeTree}
    (unfolds : body.unfoldTo? (depth + 1) node = some tree) :
    ∃ label children parts, body.label? node = some label ∧ body.children? node = some children ∧
      children.mapM (body.unfoldTo? depth) = some parts ∧ tree = .node label parts := by
  obtain ⟨label, isLabel, unfolds⟩ := Option.bind_eq_some_iff.mp unfolds
  obtain ⟨children, areChildren, unfolds⟩ := Option.bind_eq_some_iff.mp unfolds
  obtain ⟨parts, areParts, same⟩ := Option.bind_eq_some_iff.mp unfolds
  exact ⟨label, children, parts, isLabel, areChildren, areParts, (Option.some.inj same).symm⟩

variable {left right : Body} (locals : left.locals = right.locals)
include locals

/-- Nodes that unfold to the same tree have the same tree in the forests of their bodies. -/
theorem forests_alike {tree : NodeTree} : ∀ {depth other : Nat} {node another : NodeId},
    left.unfoldTo? depth node = some tree → right.unfoldTo? other another = some tree →
    Alike left.forest right.forest node another := by
  intro depth
  induction depth generalizing tree with
  | zero => exact fun never => by cases never
  | succ depth ih =>
      intro other node another unfolds unfoldsToo
      cases other with
      | zero => cases unfoldsToo
      | succ other =>
          obtain ⟨label, children, trees, isLabel, areChildren, areTrees, rfl⟩ :=
            unfoldTo?_succ unfolds
          obtain ⟨_, others, _, isLabelToo, areOthers, areTreesToo, same⟩ :=
            unfoldTo?_succ unfoldsToo
          obtain ⟨rfl, rfl⟩ := NodeTree.node.inj same
          have pairs : List.Forall₂ (Alike left.forest right.forest) children others :=
            (forall₂_of_mapM areTrees areTreesToo).imp fun _ _ ⟨_, first, second⟩ =>
              ih first second
          have parts : ∀ found foundToo, left.children? node = some found →
              right.children? another = some foundToo →
              List.Forall₂ (Alike left.forest right.forest) found foundToo := by
            intro found foundToo areFound areFoundToo
            obtain rfl := Option.some.inj (areChildren.symm.trans areFound)
            obtain rfl := Option.some.inj (areOthers.symm.trans areFoundToo)
            exact pairs
          have labels : left.label? node = right.label? another := isLabel.trans isLabelToo.symm
          cases node with
          | expr id =>
              cases another with
              | expr other =>
                  change Persists (left.forest.expr? id) (right.forest.expr? other)
                  rw [forest_expr?, forest_expr?]
                  exact exprOver?_persists locals labels parts
              | stmt other =>
                  obtain ⟨_, -, rfl⟩ := Option.map_eq_some_iff.mp isLabel
                  obtain ⟨_, -, same⟩ := Option.map_eq_some_iff.mp isLabelToo
                  cases same
          | stmt id =>
              cases another with
              | expr other =>
                  obtain ⟨_, -, rfl⟩ := Option.map_eq_some_iff.mp isLabel
                  obtain ⟨_, -, same⟩ := Option.map_eq_some_iff.mp isLabelToo
                  cases same
              | stmt other =>
                  change Persists (left.forest.code? id) (right.forest.code? other)
                  rw [forest_code?, forest_code?]
                  exact codeOver?_persists locals labels parts

/-- Bodies that unfold to the same tree are the same method, if they agree in what is around it. -/
theorem method?_of_unfold? (valid : left.validate = .ok ()) (name : left.name = right.name)
    (thisType? : left.thisType? = right.thisType?) (returnType : left.returnType = right.returnType)
    (same : left.unfolded? = right.unfolded?) :
    ∃ method, left.method? = some method ∧ right.method? = some method := by
  obtain ⟨tree, unfolds⟩ := unfolded?_exists valid
  obtain ⟨method, found⟩ := method?_exists valid
  obtain ⟨code, isCode, -⟩ := Option.bind_eq_some_iff.mp found
  have alike := forests_alike locals unfolds (same ▸ unfolds)
  refine ⟨method, found, ?_⟩
  rw [← found, method?, method?, isCode, alike code isCode, name, thisType?, returnType]

end Unfolding

end Body

end NullFlow
