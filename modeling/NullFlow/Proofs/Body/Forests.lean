import NullFlow.Proofs.Body.Methods
import NullFlow.Proofs.Code.Contents
/-!
The trees of a body are made of trees of the body. Whatever holds of a tree if it holds of the trees
that it is made of holds of all trees of the body.
-/

namespace NullFlow

section Resolve

variable {Item Result : Type}

/-- Whatever a list of results holds is a result of the function. -/
theorem mem_of_mapM {step : Item → Option Result} {items : List Item} {results : List Result}
    (made : items.mapM step = some results) :
    ∀ result ∈ results, ∃ item ∈ items, step item = some result := by
  induction items generalizing results with
  | nil =>
      obtain rfl : [] = results := Option.some.inj made
      exact fun _ never => by cases never
  | cons item rest ih =>
      rw [List.mapM_cons] at made
      obtain ⟨first, isFirst, others⟩ := Option.bind_eq_some_iff.mp made
      obtain ⟨more, areMore, same⟩ := Option.bind_eq_some_iff.mp others
      obtain rfl : first :: more = results := Option.some.inj same
      intro result member
      rcases List.mem_cons.mp member with rfl | inMore
      · exact ⟨item, List.mem_cons_self, isFirst⟩
      · obtain ⟨other, inRest, isResult⟩ := ih areMore result inMore
        exact ⟨other, List.mem_cons_of_mem _ inRest, isResult⟩

/-- An expression that may be missing is resolved to what it was resolved from. -/
theorem mem_of_resolveOption {step : Item → Option Result} {item? : Option Item}
    {result? : Option Result} (made : resolveOption step item? = some result?) :
    ∀ result ∈ result?, ∃ item ∈ item?, step item = some result := by
  cases item? with
  | none =>
      obtain rfl : none = result? := Option.some.inj made
      exact fun _ never => by cases never
  | some item =>
      obtain ⟨found, isFound, rfl⟩ := Option.map_eq_some_iff.mp made
      intro result member
      exact ⟨item, rfl, Option.some.inj member ▸ isFound⟩

variable {Var Code Var' Code' : Type} {var : Var → Option Var'} {child : Item → Option Result}
  {code : Code → Option Code'}

/-- Every resolved argument comes from one that was resolved. -/
theorem mem_of_resolveArguments {arguments : List (Argument Item)}
    {results : List (Argument Result)}
    (made : arguments.mapM (Argument.resolve child) = some results) :
    ∀ result ∈ results.map Argument.value,
      ∃ item ∈ arguments.map Argument.value, child item = some result := by
  intro result member
  obtain ⟨argument, inResults, rfl⟩ := List.mem_map.mp member
  obtain ⟨source, inArguments, isArgument⟩ := mem_of_mapM made argument inResults
  obtain ⟨value, isValue, same⟩ := Option.bind_eq_some_iff.mp isArgument
  obtain rfl : _ = argument := Option.some.inj same
  exact ⟨source.value, List.mem_map_of_mem inArguments, isValue⟩

mutual

/-- Every resolved value of an initializer comes from one that was resolved. -/
theorem mem_of_resolveInitializer : ∀ {entry : Initializer Item} {made : Initializer Result},
    entry.resolve child = some made →
    ∀ result ∈ made.values, ∃ item ∈ entry.values, child item = some result
  | .value member value, made, resolved => by
      rw [Initializer.resolve] at resolved
      obtain ⟨found, isFound, same⟩ := Option.bind_eq_some_iff.mp resolved
      obtain rfl : _ = made := Option.some.inj same
      intro result inside
      obtain rfl := List.mem_singleton.mp inside
      exact ⟨value, List.mem_cons_self, isFound⟩
  | .nested member entries, made, resolved => by
      rw [Initializer.resolve] at resolved
      obtain ⟨found, isFound, same⟩ := Option.bind_eq_some_iff.mp resolved
      obtain rfl : _ = made := Option.some.inj same
      exact mem_of_resolveInitializers isFound

theorem mem_of_resolveInitializers : ∀ {entries : List (Initializer Item)}
    {made : List (Initializer Result)}, resolveInitializers child entries = some made →
    ∀ result ∈ initializerValues made, ∃ item ∈ initializerValues entries, child item = some result
  | [], made, resolved => by
      obtain rfl : [] = made := Option.some.inj resolved
      exact fun _ never => by cases never
  | entry :: rest, made, resolved => by
      rw [resolveInitializers] at resolved
      obtain ⟨first, isFirst, others⟩ := Option.bind_eq_some_iff.mp resolved
      obtain ⟨more, areMore, same⟩ := Option.bind_eq_some_iff.mp others
      obtain rfl : first :: more = made := Option.some.inj same
      intro result inside
      rcases List.mem_append.mp inside with inFirst | inMore
      · obtain ⟨item, member, isItem⟩ := mem_of_resolveInitializer isFirst result inFirst
        exact ⟨item, List.mem_append_left _ member, isItem⟩
      · obtain ⟨item, member, isItem⟩ := mem_of_resolveInitializers areMore result inMore
        exact ⟨item, List.mem_append_right _ member, isItem⟩

end

/-- The local that a tree reads is known. -/
theorem ExprKind.resolve_read {kind : ExprKind Var Item Code} {source : Var'}
    (resolved : kind.resolve var child code = some (.read source)) :
    ∃ number, var number = some source := by
  cases kind with
  | read number =>
      obtain ⟨found, isFound, same⟩ := Option.bind_eq_some_iff.mp resolved
      exact ⟨number, ExprKind.read.inj (Option.some.inj same) ▸ isFound⟩
  | _ => simp [ExprKind.resolve, Option.bind_eq_some_iff] at resolved

/-- The parts of a tree are the trees of the parts. -/
theorem ExprKind.resolve_children {kind : ExprKind Var Item Code}
    {made : ExprKind Var' Result Code'} (resolved : kind.resolve var child code = some made) :
    ∀ result ∈ made.children, ∃ item ∈ kind.children, child item = some result := by
  have ofOption : ∀ {item? : Option Item} {result? : Option Result},
      resolveOption child item? = some result? →
      ∀ result ∈ result?.toList, ∃ item ∈ item?.toList, child item = some result := by
    intro item? result? isResult result inside
    obtain ⟨item, member, isItem⟩ :=
      mem_of_resolveOption isResult result (Option.mem_toList.mp inside)
    exact ⟨item, Option.mem_toList.mpr member, isItem⟩
  have ofBoth : ∀ {results others : List Result} {items more : List Item},
      (∀ result ∈ results, ∃ item ∈ items, child item = some result) →
      (∀ result ∈ others, ∃ item ∈ more, child item = some result) →
      ∀ result ∈ results ++ others, ∃ item ∈ items ++ more, child item = some result := by
    intro results others items more left right result member
    rcases List.mem_append.mp member with inLeft | inRight
    · obtain ⟨item, member, isItem⟩ := left result inLeft
      exact ⟨item, List.mem_append_left _ member, isItem⟩
    · obtain ⟨item, member, isItem⟩ := right result inRight
      exact ⟨item, List.mem_append_right _ member, isItem⟩
  cases kind with
  | call receiver? method arguments =>
      obtain ⟨receiver, isReceiver, others⟩ := Option.bind_eq_some_iff.mp resolved
      obtain ⟨values, areValues, same⟩ := Option.bind_eq_some_iff.mp others
      obtain rfl : _ = made := Option.some.inj same
      exact ofBoth (ofOption isReceiver) (mem_of_resolveArguments areValues)
  | create constructor? arguments initializers =>
      obtain ⟨values, areValues, others⟩ := Option.bind_eq_some_iff.mp resolved
      obtain ⟨entries, areEntries, same⟩ := Option.bind_eq_some_iff.mp others
      obtain rfl : _ = made := Option.some.inj same
      exact ofBoth (mem_of_resolveArguments areValues) (mem_of_resolveInitializers areEntries)
  | member receiver? member =>
      obtain ⟨receiver, isReceiver, same⟩ := Option.bind_eq_some_iff.mp resolved
      obtain rfl : _ = made := Option.some.inj same
      exact ofOption isReceiver
  | array element? items =>
      obtain ⟨values, areValues, same⟩ := Option.bind_eq_some_iff.mp resolved
      obtain rfl : _ = made := Option.some.inj same
      exact mem_of_mapM areValues
  | bad parts =>
      obtain ⟨values, areValues, same⟩ := Option.bind_eq_some_iff.mp resolved
      obtain rfl : _ = made := Option.some.inj same
      exact mem_of_mapM areValues
  | _ =>
      -- Everything else has a fixed number of parts.
      simp only [ExprKind.resolve, Option.pure_def, Option.bind_eq_bind, Option.bind_eq_some_iff,
        Option.some.injEq] at resolved
      grind [ExprKind.children]

end Resolve

section Trees

variable {Leaf Part : Type} {ofLeaf : Leaf → Prop} {ofPart : Part → Prop} {leaf? : Option Leaf}
  {expr : ExprId → Option Part} {child : StmtId → Option (Stmt Leaf Part)}

theorem over_block {stmts : List (Stmt Leaf Part)} (each : ∀ stmt ∈ stmts, stmt.Over ofLeaf ofPart) :
    (Stmt.block stmts).Over ofLeaf ofPart := by
  induction stmts with
  | nil => exact ⟨List.forall_mem_nil _, List.forall_mem_nil _⟩
  | cons stmt rest ih =>
      obtain ⟨head, tail⟩ := List.forall_mem_cons.mp each
      have others := ih tail
      exact ⟨List.forall_mem_append.mpr ⟨head.leaves, others.leaves⟩,
        List.forall_mem_append.mpr ⟨head.exprs, others.exprs⟩⟩

theorem over_switch {scrutinee : Part} {arms : List (Arm (Stmt Leaf Part))}
    (ofScrutinee : ofPart scrutinee)
    (each : ∀ arm ∈ arms, (Stmt.block arm.body).Over ofLeaf ofPart) :
    (Stmt.switch scrutinee arms).Over ofLeaf ofPart := by
  induction arms with
  | nil => exact ⟨List.forall_mem_nil _, List.forall_mem_singleton.mpr ofScrutinee⟩
  | cons arm rest ih =>
      obtain ⟨head, tail⟩ := List.forall_mem_cons.mp each
      have others := ih tail
      have exprs := (List.forall_mem_cons.mp others.exprs).2
      exact ⟨List.forall_mem_append.mpr ⟨head.leaves, others.leaves⟩,
        List.forall_mem_cons.mpr ⟨ofScrutinee, List.forall_mem_append.mpr ⟨head.exprs, exprs⟩⟩⟩

/-- Whatever holds of the parts of a statement holds of its tree. -/
theorem Statement.tree?_over {stmt : Statement} {tree : Stmt Leaf Part}
    (made : stmt.tree? leaf? expr child = some tree) (leaf : ∀ leaf, leaf? = some leaf → ofLeaf leaf)
    (exprs : ∀ id part, expr id = some part → ofPart part)
    (stmts : ∀ id inner, child id = some inner → inner.Over ofLeaf ofPart) :
    tree.Over ofLeaf ofPart := by
  obtain ⟨kind, span⟩ := stmt
  have each : ∀ {ids : List StmtId} {inner : List (Stmt Leaf Part)}, ids.mapM child = some inner →
      (Stmt.block inner).Over ofLeaf ofPart := by
    intro ids inner made
    refine over_block fun tree member => ?_
    obtain ⟨id, _, isTree⟩ := mem_of_mapM made tree member
    exact stmts id tree isTree
  have ofOption : ∀ {id? : Option ExprId} {part? : Option Part},
      resolveOption expr id? = some part? → ∀ part ∈ part?, ofPart part := by
    intro id? part? made part member
    obtain ⟨id, _, isPart⟩ := mem_of_resolveOption made part member
    exact exprs id part isPart
  unfold Statement.tree? at made
  cases kind with
  | block ids =>
      obtain ⟨inner, isInner, same⟩ := Option.bind_eq_some_iff.mp made
      obtain rfl : _ = tree := Option.some.inj same
      exact each isInner
  | switch scrutinee arms =>
      obtain ⟨value, isValue, others⟩ := Option.bind_eq_some_iff.mp made
      obtain ⟨targets, areTargets, same⟩ := Option.bind_eq_some_iff.mp others
      obtain rfl : _ = tree := Option.some.inj same
      refine over_switch (exprs _ value isValue) fun arm member => ?_
      obtain ⟨source, _, isArm⟩ := mem_of_mapM areTargets arm member
      obtain ⟨inner, isInner, same⟩ := Option.bind_eq_some_iff.mp isArm
      obtain rfl : _ = arm := Option.some.inj same
      exact each isInner
  | forLoop init condition? updates loop =>
      obtain ⟨prepared, isPrepared, others⟩ := Option.bind_eq_some_iff.mp made
      obtain ⟨test?, isTest, others⟩ := Option.bind_eq_some_iff.mp others
      obtain ⟨steps, areSteps, others⟩ := Option.bind_eq_some_iff.mp others
      obtain ⟨inner, isInner, same⟩ := Option.bind_eq_some_iff.mp others
      obtain rfl : _ = tree := Option.some.inj same
      have ofInit := each isPrepared
      have ofLoop := stmts _ inner isInner
      have ofTest : ∀ part ∈ test?.toList, ofPart part := fun part member =>
        ofOption isTest part (Option.mem_toList.mp member)
      have ofSteps : ∀ part ∈ steps, ofPart part := by
        intro part member
        obtain ⟨id, _, isPart⟩ := mem_of_mapM areSteps part member
        exact exprs id part isPart
      exact ⟨List.forall_mem_append.mpr ⟨ofInit.leaves, ofLoop.leaves⟩,
        List.forall_mem_append.mpr ⟨ofInit.exprs, List.forall_mem_append.mpr ⟨ofTest,
          List.forall_mem_append.mpr ⟨ofSteps, ofLoop.exprs⟩⟩⟩⟩
  | returnValue value? =>
      obtain ⟨part?, isPart, same⟩ := Option.bind_eq_some_iff.mp made
      obtain rfl : _ = tree := Option.some.inj same
      exact ⟨List.forall_mem_nil _, fun part member =>
        ofOption isPart part (Option.mem_toList.mp member)⟩
  | throwValue value? =>
      obtain ⟨part?, isPart, same⟩ := Option.bind_eq_some_iff.mp made
      obtain rfl : _ = tree := Option.some.inj same
      exact ⟨List.forall_mem_nil _, fun part member =>
        ofOption isPart part (Option.mem_toList.mp member)⟩
  | ifElse condition thenBranch elseBranch? =>
      cases elseBranch? with
      | none =>
          obtain ⟨test, isTest, others⟩ := Option.bind_eq_some_iff.mp made
          obtain ⟨taken, isTaken, same⟩ := Option.bind_eq_some_iff.mp others
          obtain rfl : _ = tree := Option.some.inj same
          have ofTaken := stmts _ taken isTaken
          exact ⟨ofTaken.leaves, List.forall_mem_cons.mpr ⟨exprs _ test isTest, ofTaken.exprs⟩⟩
      | some elseBranch =>
          obtain ⟨test, isTest, others⟩ := Option.bind_eq_some_iff.mp made
          obtain ⟨taken, isTaken, others⟩ := Option.bind_eq_some_iff.mp others
          obtain ⟨other, isOther, same⟩ := Option.bind_eq_some_iff.mp others
          obtain rfl : _ = tree := Option.some.inj same
          have ofTaken := stmts _ taken isTaken
          have ofOther := stmts _ other isOther
          exact ⟨List.forall_mem_append.mpr ⟨ofTaken.leaves, ofOther.leaves⟩,
            List.forall_mem_cons.mpr ⟨exprs _ test isTest,
              List.forall_mem_append.mpr ⟨ofTaken.exprs, ofOther.exprs⟩⟩⟩
  | whileLoop condition loop =>
      obtain ⟨test, isTest, others⟩ := Option.bind_eq_some_iff.mp made
      obtain ⟨inner, isInner, same⟩ := Option.bind_eq_some_iff.mp others
      obtain rfl : _ = tree := Option.some.inj same
      have ofInner := stmts _ inner isInner
      exact ⟨ofInner.leaves, List.forall_mem_cons.mpr ⟨exprs _ test isTest, ofInner.exprs⟩⟩
  | doWhile loop condition =>
      obtain ⟨inner, isInner, others⟩ := Option.bind_eq_some_iff.mp made
      obtain ⟨test, isTest, same⟩ := Option.bind_eq_some_iff.mp others
      obtain rfl : _ = tree := Option.some.inj same
      have ofInner := stmts _ inner isInner
      exact ⟨ofInner.leaves, List.forall_mem_cons.mpr ⟨exprs _ test isTest, ofInner.exprs⟩⟩
  | declare target value? =>
      obtain ⟨simple, isSimple, same⟩ := Option.bind_eq_some_iff.mp made
      obtain rfl : _ = tree := Option.some.inj same
      exact ⟨List.forall_mem_singleton.mpr (leaf simple isSimple), List.forall_mem_nil _⟩
  | evaluate value =>
      obtain ⟨simple, isSimple, same⟩ := Option.bind_eq_some_iff.mp made
      obtain rfl : _ = tree := Option.some.inj same
      exact ⟨List.forall_mem_singleton.mpr (leaf simple isSimple), List.forall_mem_nil _⟩
  | empty =>
      obtain rfl : _ = tree := Option.some.inj made
      exact ⟨List.forall_mem_nil _, List.forall_mem_nil _⟩
  | breakOut =>
      obtain rfl : _ = tree := Option.some.inj made
      exact ⟨List.forall_mem_nil _, List.forall_mem_nil _⟩
  | continueLoop =>
      obtain rfl : _ = tree := Option.some.inj made
      exact ⟨List.forall_mem_nil _, List.forall_mem_nil _⟩

end Trees

/-- What is known of the trees of a forest. -/
structure Forest.All (ofExpr : ExprId → Expr → Prop) (ofCode : Code → Prop) (forest : Forest) :
    Prop where
  exprs : ∀ id tree, forest.expr? id = some tree → ofExpr id tree
  codes : ∀ id tree, forest.code? id = some tree → ofCode tree

/-- After gaps were filled, an item was there already or it fills a gap. -/
theorem of_fill {Item : Type} {known : Array (Option Item)} {more : Nat → Option Item} {id : Nat}
    {item : Item}
    (found : (known.mapIdx fun id known? => known? <|> more id)[id]?.join = some item) :
    known[id]?.join = some item ∨ more id = some item := by
  rw [Array.getElem?_mapIdx] at found
  cases atId : known[id]? with
  | none =>
      rw [atId] at found
      cases found
  | some known? =>
      rw [atId] at found
      cases known? with
      | none => exact .inr found
      | some other => exact .inl found

/-- At the start no tree is known. -/
theorem nothing_known {Item : Type} (count id : Nat) {item : Item} :
    (Array.replicate count (none : Option Item))[id]?.join ≠ some item := by
  rw [Array.getElem?_replicate]
  split <;> simp

namespace Body

section Induction

variable {body : Body} {ofExpr : ExprId → Expr → Prop} {ofCode : Code → Prop}
  (expr : ∀ forest : Forest, forest.All ofExpr ofCode → ∀ id tree,
    body.exprOver? forest id = some tree → ofExpr id tree)
  (code : ∀ forest : Forest, forest.All ofExpr ofCode → ∀ id tree,
    body.codeOver? forest id = some tree → ofCode tree)
include expr code

/-- A tree that is added is made of trees that were known. -/
theorem grow_all {forest : Forest} (known : forest.All ofExpr ofCode) :
    (body.grow forest).All ofExpr ofCode := by
  constructor
  · intro id tree found
    rcases of_fill found with old | made
    · exact known.exprs id tree old
    · exact expr forest known id tree made
  · intro id tree found
    rcases of_fill found with old | made
    · exact known.codes id tree old
    · exact code forest known id tree made

/-- What holds of the trees of a forest holds of those that grow from it. -/
theorem growTo_all {rounds : Nat} {forest : Forest} (known : forest.All ofExpr ofCode) :
    (body.growTo rounds forest).All ofExpr ofCode := by
  induction rounds generalizing forest with
  | zero => exact known
  | succ rounds ih =>
      rw [growTo]
      split
      · exact known
      · exact ih (grow_all expr code known)

/-- What holds of a tree if it holds of the trees of its parts holds of all trees of the body. -/
theorem forest_all : body.forest.All ofExpr ofCode :=
  growTo_all expr code ⟨fun id _ found => absurd found (nothing_known _ id),
    fun id _ found => absurd found (nothing_known _ id)⟩

end Induction

section Trees

variable {body : Body} {forest : Forest} {ofTarget : Variable → Prop} {ofExpr : Expr → Prop}

/-- A tree is the shape of an expression of the body, filled with trees of the forest. -/
theorem of_exprOver? {id : ExprId} {tree : Expr} (made : body.exprOver? forest id = some tree) :
    ∃ (expr : ArenaExpr) (kind : ExprKind Variable Expr Code), body.exprs[id]? = some expr ∧
      expr.kind.resolve body.localVar? forest.expr? forest.code? = some kind ∧
      tree = .node ⟨kind, expr.ty?, expr.span⟩ := by
  obtain ⟨expr, atId, others⟩ := Option.bind_eq_some_iff.mp made
  obtain ⟨node, isNode, same⟩ := Option.bind_eq_some_iff.mp others
  obtain rfl : _ = tree := Option.some.inj same
  obtain ⟨kind, isKind, same⟩ := Option.bind_eq_some_iff.mp isNode
  obtain rfl : _ = node := Option.some.inj same
  exact ⟨expr, kind, atId, isKind, rfl⟩

variable (targets : ∀ id source, body.localVar? id = some source → ofTarget source)
  (exprs : ∀ id tree, forest.expr? id = some tree → ofExpr tree)
include targets exprs

/-- A simple statement declares locals of the body and evaluates trees of the forest. -/
theorem simple?_over {stmt : Statement} {leaf : Simple Expr}
    (made : body.simple? forest.expr? stmt = some leaf) : leaf.Over ofTarget ofExpr := by
  obtain ⟨kind, span⟩ := stmt
  cases kind with
  | declare number value? =>
      obtain ⟨target, isTarget, others⟩ := Option.bind_eq_some_iff.mp made
      obtain ⟨part?, isPart, same⟩ := Option.bind_eq_some_iff.mp others
      obtain rfl : _ = leaf := Option.some.inj same
      refine ⟨targets _ target isTarget, fun value member => ?_⟩
      obtain ⟨id, _, found⟩ := mem_of_resolveOption isPart value member
      exact exprs id value found
  | evaluate id =>
      obtain ⟨value, found, same⟩ := Option.bind_eq_some_iff.mp made
      obtain rfl : _ = leaf := Option.some.inj same
      exact exprs id value found
  | _ => cases made

/-- What holds of the locals of the body and of the trees of the forest holds of the tree of a
statement. -/
theorem codeOver?_madeOf
    (codes : ∀ id tree, forest.code? id = some tree → Code.MadeOf ofTarget ofExpr tree)
    {id : StmtId} {tree : Code} (made : body.codeOver? forest id = some tree) :
    Code.MadeOf ofTarget ofExpr tree := by
  obtain ⟨stmt, _, made⟩ := Option.bind_eq_some_iff.mp made
  exact Statement.tree?_over made (fun _ found => simple?_over targets exprs found) exprs codes

end Trees

/-- The code of a method has a tree in the forest. -/
theorem code_of_method? {body : Body} {method : Method} (found : body.method? = some method) :
    body.forest.code? body.root = some method.code ∧ method.thisType? = body.thisType? := by
  obtain ⟨code, isCode, same⟩ := Option.bind_eq_some_iff.mp found
  obtain rfl : _ = method := Option.some.inj same
  exact ⟨isCode, rfl⟩

end Body

end NullFlow
