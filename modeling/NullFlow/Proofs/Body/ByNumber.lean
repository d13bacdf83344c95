import NullFlow.Proofs.Analysis.Numbers
import NullFlow.Proofs.Body.Safety
import NullFlow.Proofs.Body.Unfolding
import NullFlow.Proofs.Run.Reports
/-!
The analysis of a body by its numbers. Nothing is unfolded here: statements are lowered to graphs of
numbers, and whenever the analysis comes to a number it looks up the node in its arena. This analysis
follows that of the tree step by step, so it sees of a body no more than what its root unfolds to.
-/

namespace NullFlow

namespace Body

section Evaluation

variable (body : Body) (context : Context) (absent : Meaning)

/-- The simple statement at a number. The meaning `absent` stands for whatever is not there. -/
def simpleAt (expr : ExprId → Meaning) (id : StmtId) : Simple Meaning :=
  (body.stmts[id]?.bind (body.simple? fun part => some (expr part))).getD (.evaluate absent)

/-- What the numbers of the body stand for, if its expressions have these meanings. -/
def lookup (expr : ExprId → Meaning) : Lookup := ⟨body.simpleAt absent expr, expr⟩

/-- The code at a number, lowered to a graph of numbers. What is not there is empty. -/
def numbersAt (depth : Nat) (id : StmtId) : NumberGraph :=
  .ofStmt ((body.stmtTreeTo? depth id).getD .empty)

/-- The meaning of a node whose parts have these meanings. -/
def meaningOver (depth : Nat) (expr : ExprId → Meaning) (node : ArenaExpr) : Meaning :=
  match node.kind with
  | .lambda _ (.expr value) =>
      (body.lookup absent expr).lambda context (.ofValue value (expr value).span) node.span node.ty?
  | .lambda _ (.block code) =>
      (body.lookup absent expr).lambda context (body.numbersAt depth code) node.span node.ty?
  | _ =>
      match node.resolve body.localVar? (fun part => some (.mk fun _ => expr part)) fun _ => none with
      | some resolved => Meaning.ofNode context resolved
      | none => absent

/-- The meaning of the expression at a number, down to a depth. -/
def meaningAt : Nat → ExprId → Meaning
  | 0, _ => absent
  | depth + 1, id =>
      match body.exprs[id]? with
      | some node => body.meaningOver context absent depth (meaningAt depth) node
      | none => absent

/-- Analyzes the code at the root, down to a depth, until a token, if there is one, asks to stop. -/
def analyzeAt (depth : Nat) (classes : ClassTable) (options : Options)
    (token? : Option CancellationToken) : Except Cancelled MethodAnalysis :=
  let token := token?.getD (.steady false)
  let context : Context := ⟨classes, body.name, body.thisType?, options, token⟩
  let lookup := body.lookup absent (body.meaningAt context absent depth)
  let (solution?, session) := lookup.analyze context (body.numbersAt depth body.root) Store.entry
    (.start body.returnType options)
  match MethodAnalysis.ofRun? token solution? session with
  | some analysis => .ok analysis
  | none => .error ⟨body.name⟩

end Evaluation

section Depth

variable {body : Body}

/-- No path down from the node is longer than the depth, and every number on it is there. -/
def Unfolds (body : Body) (depth : Nat) (node : NodeId) : Prop :=
  ∃ tree, body.unfoldTo? depth node = some tree

/-- Whoever unfolds a node unfolds its parts. -/
theorem Unfolds.parts {depth : Nat} {node : NodeId} (unfolds : body.Unfolds (depth + 1) node) :
    ∃ children, body.children? node = some children ∧
      ∀ child ∈ children, body.Unfolds depth child := by
  obtain ⟨tree, isTree⟩ := unfolds
  obtain ⟨_, children, parts, -, found, made, -⟩ := unfoldTo?_succ isTree
  refine ⟨children, found, fun child member => ?_⟩
  obtain ⟨part, isPart, -⟩ := List.forall₂_same.mp (forall₂_of_mapM made made) child member
  exact ⟨part, isPart⟩

/-- With more depth a node unfolds to the same tree. -/
theorem unfoldTo?_mono {depth : Nat} : ∀ {node : NodeId},
    Persists (body.unfoldTo? depth node) (body.unfoldTo? (depth + 1) node) := by
  induction depth with
  | zero => exact fun _ never => by cases never
  | succ depth ih =>
      intro node
      rw [unfoldTo?, unfoldTo?]
      exact (Persists.refl _).bind fun _ => (Persists.refl _).bind fun _ =>
        (Persists.mapM (List.forall₂_same.mpr fun _ _ => ih)).bind fun _ => .refl _

/-- More depth does no harm. -/
theorem Unfolds.deepen {depth more : Nat} {node : NodeId} (unfolds : body.Unfolds depth node)
    (enough : depth ≤ more) : body.Unfolds more node := by
  induction enough with
  | refl => exact unfolds
  | step _ ih =>
      obtain ⟨tree, isTree⟩ := ih
      exact ⟨tree, unfoldTo?_mono tree isTree⟩

end Depth

section Simulation

variable {body : Body} {context : Context} {absent : Meaning}

/-- The numbers that unfold within the depth stand for the meanings of their trees. -/
def Stands (body : Body) (context : Context) (depth : Nat) (expr : ExprId → Meaning) : Prop :=
  ∀ id tree, body.Unfolds depth (.expr id) → body.forest.expr? id = some tree →
    expr id = tree.meaning context

theorem Stands.shallow {depth : Nat} {expr : ExprId → Meaning}
    (stands : body.Stands context (depth + 1) expr) : body.Stands context depth expr :=
  fun id tree unfolds => stands id tree (unfolds.deepen depth.le_succ)

/-- What stands for a number in place of its tree. -/
theorem Stands.carries {depth : Nat} {expr : ExprId → Meaning}
    (stands : body.Stands context depth expr) {id : ExprId} (unfolds : body.Unfolds depth (.expr id)) :
    Carries (fun part => (body.forest.expr? part).map (Expr.fold (Meaning.ofNode context)))
      (fun part => some (expr part)) id id := by
  intro meaning isMeaning
  obtain ⟨tree, isTree, rfl⟩ := Option.map_eq_some_iff.mp isMeaning
  exact congrArg some (stands id tree unfolds isTree)

/-- The expressions of a simple statement can be replaced before it is made or after that. -/
theorem simple?_map {Result : Type} (rule : Expr.Results Result → Result)
    (expr : ExprId → Option Expr) (stmt : Statement) :
    (body.simple? expr stmt).map (foldSimple rule) =
      body.simple? (fun part => (expr part).map (Expr.fold rule)) stmt := by
  have delayed (part? : Option ExprId) :
      resolveOption (fun part => (expr part).map (Expr.fold rule)) part? =
        (resolveOption expr part?).map (foldOption rule) := by
    rw [← resolveOption_map]
    exact congrArg (Option.map · _) (funext fun part? => (foldOption_eq_map rule part?).symm)
  obtain ⟨kind, span⟩ := stmt
  cases kind with
  | declare target value? =>
      simp only [simple?, delayed]
      cases body.localVar? target <;> cases resolveOption expr value? <;> rfl
  | evaluate value =>
      simp only [simple?]
      cases expr value <;> rfl
  | _ => rfl

variable (absent) in
/-- The statement tree over numbers is that of the code, with the numbers looked up. -/
theorem stmtTreeTo?_map {depth : Nat} {expr : ExprId → Meaning} : ∀ {id : StmtId} {code : Code},
    body.Stands context depth expr → body.Unfolds depth (.stmt id) →
    body.forest.code? id = some code →
    (body.stmtTreeTo? depth id).map (Stmt.map (body.simpleAt absent expr) expr) =
      some (foldStmt (Meaning.ofNode context) code) := by
  induction depth with
  | zero => exact fun _ ⟨_, never⟩ => by cases never
  | succ depth ih =>
      intro id code stands unfolds isCode
      obtain ⟨children, found, each⟩ := unfolds.parts
      obtain ⟨stmt, atId, rfl⟩ := children?_stmt found
      rw [forest_code?, codeOver?, atId] at isCode
      have made : stmt.tree? (body.simple? body.forest.expr? stmt) body.forest.expr?
          body.forest.code? = some code := isCode
      -- The parts are the same by their numbers and by their trees.
      have exprs : List.Forall₂
          (Carries (fun part => (body.forest.expr? part).map (Expr.fold (Meaning.ofNode context)))
            fun part => some (expr part)) stmt.kind.childExprs stmt.kind.childExprs :=
        List.forall₂_same.mpr fun part member => stands.shallow.carries
          (each _ (List.mem_append_right _ (List.mem_map_of_mem member)))
      have stmts : List.Forall₂
          (Carries (fun part => (body.forest.code? part).map
              (Stmt.map (foldSimple (Meaning.ofNode context)) (Expr.fold (Meaning.ofNode context))))
            fun part => (body.stmtTreeTo? depth part).map
              (Stmt.map (body.simpleAt absent expr) expr))
          stmt.kind.childStmts stmt.kind.childStmts := by
        refine List.forall₂_same.mpr fun part member => ?_
        intro meaning isMeaning
        obtain ⟨tree, isTree, rfl⟩ := Option.map_eq_some_iff.mp isMeaning
        rw [← foldStmt_eq_map]
        exact ih stands.shallow (each _ (List.mem_append_left _ (List.mem_map_of_mem member))) isTree
      have leaf : Persists ((body.simple? body.forest.expr? stmt).map
          (foldSimple (Meaning.ofNode context))) (some (body.simpleAt absent expr id)) := by
        rw [simple?_map]
        intro meaning isMeaning
        have looked := simple?_persists rfl rfl exprs meaning isMeaning
        rw [simpleAt, atId, Option.bind_some, looked]
        rfl
      have whole := Statement.tree?_persists rfl leaf stmts exprs
      rw [← Statement.tree?_map, made, Option.map_some, ← foldStmt_eq_map] at whole
      have numbers := whole _ rfl
      rw [stmtTreeTo?, atId]
      exact (Statement.tree?_map (body.simpleAt absent expr) expr (some id) some _ stmt).trans numbers

/-- The graph of numbers, looked up, is the graph of the code. -/
theorem resolve_numbersAt {depth : Nat} {expr : ExprId → Meaning} {id : StmtId} {code : Code}
    (stands : body.Stands context depth expr) (unfolds : body.Unfolds depth (.stmt id))
    (isCode : body.forest.code? id = some code) :
    (body.lookup absent expr).resolve (body.numbersAt depth id) = code.graph context := by
  obtain ⟨numbers, areNumbers, looked⟩ :=
    Option.map_eq_some_iff.mp (stmtTreeTo?_map absent stands unfolds isCode)
  rw [numbersAt, areNumbers, Option.getD_some, Lookup.resolve, ← FlowGraph.ofStmt_map, Code.graph,
    ← looked]
  rfl

/-- A lambda that yields an expression means what its tree means. -/
theorem meaningOver_value {depth : Nat} {expr : ExprId → Meaning} {parameters : List LocalId}
    {id : ExprId} {ty? : Option Ty} {span : Span} {value : Expr}
    (same : expr id = value.meaning context) :
    body.meaningOver context absent depth expr ⟨.lambda parameters (.expr id), ty?, span⟩ =
      (Expr.node ⟨.lambda parameters (.expr value), ty?, span⟩).meaning context := by
  have looked : (body.lookup absent expr).resolve (.ofValue id (expr id).span) =
      .ofValue (value.meaning context) (value.meaning context).span := by
    rw [← same]
    simp [Lookup.resolve, lookup, FlowGraph.map, FlowGraph.ofValue, Block.map, Terminator.map]
  change (body.lookup absent expr).lambda context (.ofValue id (expr id).span) span ty? = _
  rw [Lookup.lambda_eq, looked]
  rfl

/-- A lambda with a block of code means what its tree means. -/
theorem meaningOver_block {depth : Nat} {expr : ExprId → Meaning} {parameters : List LocalId}
    {id : StmtId} {ty? : Option Ty} {span : Span} {code : Code}
    (same : (body.lookup absent expr).resolve (body.numbersAt depth id) = code.graph context) :
    body.meaningOver context absent depth expr ⟨.lambda parameters (.block id), ty?, span⟩ =
      (Expr.node ⟨.lambda parameters (.block code), ty?, span⟩).meaning context := by
  change (body.lookup absent expr).lambda context (body.numbersAt depth id) span ty? = _
  rw [Lookup.lambda_eq, same]
  rfl

/-- Any other node means what is made of the meanings of its parts. -/
theorem meaningOver_plain {depth : Nat} {expr : ExprId → Meaning} {node : ArenaExpr}
    (noLambda : ∀ parameters inner, node.kind ≠ .lambda parameters inner)
    {resolved : Expr.Results Meaning}
    (made : node.resolve body.localVar? (fun part => some (.mk fun _ => expr part)) (fun _ => none) =
      some resolved) :
    body.meaningOver context absent depth expr node = Meaning.ofNode context resolved := by
  unfold meaningOver
  split
  · exact absurd ‹_› (noLambda _ _)
  · exact absurd ‹_› (noLambda _ _)
  · rw [made]

/-- What stands for a number, left to be made when it is asked for, in place of that of its tree. -/
theorem Stands.delays {depth : Nat} {expr : ExprId → Meaning}
    (stands : body.Stands context depth expr) {id : ExprId} (unfolds : body.Unfolds depth (.expr id)) :
    Carries (fun part => (body.forest.expr? part).map (Expr.delay (Meaning.ofNode context)))
      (fun part => some (.mk fun _ => expr part)) id id := by
  intro meaning isMeaning
  obtain ⟨tree, isTree, rfl⟩ := Option.map_eq_some_iff.mp isMeaning
  have same : expr id = tree.meaning context := stands id tree unfolds isTree
  change some (Thunk.mk fun _ => expr id) = _
  rw [same]
  rfl

/-- A node is filled with the meanings of its parts by number as it is with those of their trees. -/
theorem Stands.resolve {depth : Nat} {expr : ExprId → Meaning}
    (stands : body.Stands context depth expr) {kind : ExprKind LocalId ExprId StmtId}
    (unfolds : ∀ part ∈ kind.children, body.Unfolds depth (.expr part))
    (noLambda : ∀ parameters inner, kind ≠ .lambda parameters inner)
    {whole : ExprKind Variable Expr Code}
    (made : kind.resolve body.localVar? body.forest.expr? body.forest.code? = some whole) :
    kind.resolve body.localVar? (fun part => some (.mk fun _ => expr part)) (fun _ => none) =
      some (foldKind (Meaning.ofNode context) whole) := by
  have parts : List.Forall₂
      (Carries (fun part => (body.forest.expr? part).map (Expr.delay (Meaning.ofNode context)))
        fun part => some (.mk fun _ => expr part)) kind.children kind.children :=
    List.forall₂_same.mpr fun part member => stands.delays (unfolds part member)
  have persists : Persists
      (kind.resolve body.localVar?
        (fun part => (body.forest.expr? part).map (Expr.delay (Meaning.ofNode context)))
        fun code => (body.forest.code? code).map (Code.delay (Meaning.ofNode context)))
      (kind.resolve body.localVar? (fun part => some (.mk fun _ => expr part)) fun _ => none) :=
    ExprKind.resolve_persists rfl parts fun parameters inner _ _ isLambda =>
      absurd isLambda (noLambda parameters inner)
  rw [← ExprKind.resolve_delay, made] at persists
  exact persists _ rfl

/-- The meaning of a number is the meaning of its tree. -/
theorem meaningAt_stands {depth : Nat} :
    body.Stands context depth (body.meaningAt context absent depth) := by
  induction depth with
  | zero => exact fun _ _ ⟨_, never⟩ => by cases never
  | succ depth ih =>
      intro id tree unfolds isTree
      rw [forest_expr?] at isTree
      obtain ⟨⟨kind, ty?, span⟩, whole, atId, isKind, rfl⟩ := of_exprOver? isTree
      obtain ⟨children, found, each⟩ := unfolds.parts
      rw [children?, atId] at found
      obtain rfl := Option.some.inj found
      rw [meaningAt, atId]
      by_cases isLambda : ∃ parameters inner, kind = .lambda parameters inner
      · obtain ⟨parameters, inner, rfl⟩ := isLambda
        obtain ⟨resolved, isResolved, same⟩ := Option.bind_eq_some_iff.mp isKind
        obtain rfl := Option.some.inj same
        cases inner with
        | expr value =>
            obtain ⟨yielded, isYielded, same⟩ := Option.bind_eq_some_iff.mp isResolved
            obtain rfl := Option.some.inj same
            exact meaningOver_value
              (ih value yielded (each _ (List.mem_singleton_self _)) isYielded)
        | block code =>
            obtain ⟨block, isBlock, same⟩ := Option.bind_eq_some_iff.mp isResolved
            obtain rfl := Option.some.inj same
            exact meaningOver_block
              (resolve_numbersAt ih (each _ (List.mem_singleton_self _)) isBlock)
      · have noLambda : ∀ parameters inner, kind ≠ .lambda parameters inner :=
          fun parameters inner same => isLambda ⟨parameters, inner, same⟩
        refine meaningOver_plain noLambda ?_
        have parts : ∀ part ∈ kind.children, body.Unfolds depth (.expr part) :=
          fun part member => each _ (List.mem_append_left _ (List.mem_map_of_mem member))
        rw [Node.resolve, ih.resolve parts noLambda isKind]
        rfl

/-- The analysis of a body by its numbers is that of its tree, at any depth to which the body
unfolds, and whatever stands for absent numbers. -/
theorem analyzeAt_eq {depth : Nat} (unfolds : body.Unfolds depth (.stmt body.root))
    {method : Method} (found : body.method? = some method) (classes : ClassTable) (options : Options)
    (token? : Option CancellationToken) :
    body.analyzeAt absent depth classes options token? =
      method.analyzeUntil classes options token? := by
  obtain ⟨code, isCode, same⟩ := Option.bind_eq_some_iff.mp found
  obtain rfl := Option.some.inj same
  let context : Context :=
    ⟨classes, body.name, body.thisType?, options, token?.getD (.steady false)⟩
  have graph : (body.lookup absent (body.meaningAt context absent depth)).resolve
      (body.numbersAt depth body.root) = code.graph context :=
    resolve_numbersAt meaningAt_stands unfolds isCode
  rw [analyzeAt, Lookup.analyze_eq, graph]
  rfl

end Simulation

end Body

/-- The analysis sees of a body no more than the tree that it unfolds to. A valid body and another
one that has its name, types and locals and unfolds to the same tree have the same analysis by their
numbers, at any depth from the number of their nodes on and whatever stands for absent numbers: the
same answer, or both are stopped. It is that of the tree. -/
theorem analysis_of_unfolding (left right : Body) (valid : left.validate = .ok ())
    (name : left.name = right.name) (thisType? : left.thisType? = right.thisType?)
    (returnType : left.returnType = right.returnType) (locals : left.locals = right.locals)
    (same : left.unfolded? = right.unfolded?) :
    (∃ tree, left.unfolded? = some tree) ∧
      (∀ classes options token? absent other depth more,
        left.exprs.size + left.stmts.size ≤ depth → right.exprs.size + right.stmts.size ≤ more →
          left.analyzeAt absent depth classes options token? =
            right.analyzeAt other more classes options token?) ∧
      ∃ method, left.method? = some method ∧ right.method? = some method ∧ ∀ classes options,
        (∃ analysis, method.analyze classes options false = some analysis) ∧
        (∀ token? absent depth, left.exprs.size + left.stmts.size ≤ depth →
          left.analyzeAt absent depth classes options token? =
            method.analyzeUntil classes options token?) ∧
        ∀ stopRequested, Run.reports [⟨classes, [left]⟩] options stopRequested =
          Run.reports [⟨classes, [right]⟩] options stopRequested := by
  obtain ⟨tree, unfolds⟩ := Body.unfolded?_exists valid
  obtain ⟨method, isLeft, isRight⟩ :=
    Body.method?_of_unfold? locals valid name thisType? returnType same
  have unfoldsToo : right.unfolded? = some tree := same ▸ unfolds
  have ofLeft : ∀ {depth}, left.exprs.size + left.stmts.size ≤ depth →
      left.Unfolds depth (.stmt left.root) := fun enough =>
    Body.Unfolds.deepen ⟨tree, unfolds⟩ enough
  have ofRight : ∀ {depth}, right.exprs.size + right.stmts.size ≤ depth →
      right.Unfolds depth (.stmt right.root) := fun enough =>
    Body.Unfolds.deepen ⟨tree, unfoldsToo⟩ enough
  refine ⟨⟨tree, unfolds⟩, ?_, method, isLeft, isRight, fun classes options =>
    ⟨method.analyze_answers classes options, ?_, fun stopRequested => ?_⟩⟩
  · intro classes options token? absent other depth more enough enoughToo
    have first : left.analyzeAt absent depth classes options token? = _ :=
      Body.analyzeAt_eq (ofLeft enough) isLeft classes options token?
    have second : right.analyzeAt other more classes options token? = _ :=
      Body.analyzeAt_eq (ofRight enoughToo) isRight classes options token?
    exact first.trans second.symm
  · exact fun token? absent depth enough =>
      Body.analyzeAt_eq (ofLeft enough) isLeft classes options token?
  · have methods : Run.methods [⟨classes, [left]⟩] = Run.methods [⟨classes, [right]⟩] := by
      simp [Run.methods, isLeft, isRight]
    rw [Run.reports, Run.reports, methods]

section Example

/-- A variable of type C with itself as fallback. Both sides of the fallback are one node, and the
last node belongs to nothing. -/
def sharedRead : Body where
  name := "M"
  span? := none
  thisType? := none
  parameters := [0]
  returnType := .void
  locals := #[⟨"x", .named "C" [] .plain, false⟩]
  exprs := #[⟨.read 0, some (.named "C" [] .plain), .point "a.cs" 1 1⟩,
    ⟨.coalesce 0 0, some (.named "C" [] .plain), .point "a.cs" 1 1⟩, ⟨.this, none, .none⟩]
  stmts := #[⟨.evaluate 1, .none⟩, ⟨.block [0], .none⟩]
  root := 1

/-- The same code with a node for each side of the fallback, in another order. -/
def separateReads : Body where
  name := "M"
  span? := none
  thisType? := none
  parameters := [0]
  returnType := .void
  locals := #[⟨"x", .named "C" [] .plain, false⟩]
  exprs := #[⟨.coalesce 1 2, some (.named "C" [] .plain), .point "a.cs" 1 1⟩,
    ⟨.read 0, some (.named "C" [] .plain), .point "a.cs" 1 1⟩,
    ⟨.read 0, some (.named "C" [] .plain), .point "a.cs" 1 1⟩]
  stmts := #[⟨.block [1], .none⟩, ⟨.evaluate 0, .none⟩]
  root := 0

/-- Three nodes of one arena and three of the other one are met, in another order, and the analyses
of both are one. -/
theorem sharedRead_separateReads : sharedRead.validate = .ok () ∧
    sharedRead.unfolded? = separateReads.unfolded? ∧ ∀ classes options token? absent,
      sharedRead.analyzeAt absent 5 classes options token? =
        separateReads.analyzeAt absent 5 classes options token? := by
  have valid : sharedRead.validate = .ok () := by decide +kernel
  have same : sharedRead.unfolded? = separateReads.unfolded? := by cbv
  obtain ⟨-, alike, -⟩ := analysis_of_unfolding sharedRead separateReads valid rfl rfl rfl rfl same
  exact ⟨valid, same, fun classes options token? absent =>
    alike classes options token? absent absent 5 5 (by decide) (by decide)⟩

end Example

end NullFlow
