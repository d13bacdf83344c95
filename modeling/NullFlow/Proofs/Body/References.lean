import Mathlib.Data.List.Basic
import NullFlow.Proofs.Body.Reach
/-!
Which numbers a body stores, and which of them the check of a body looks at. The kinds of
expressions and statements list their parts in several functions. Here every position is named once,
and the lists are compared with that.
-/

namespace NullFlow

/-- The entry assigns the value, or an entry inside it does. -/
inductive Initializer.Holds {Child : Type} (value : Child) : Initializer Child → Prop where
  | value {member : Member} : Holds value (.value member value)
  | nested {member : Member} {entry : Initializer Child} {entries : List (Initializer Child)}
      (listed : entry ∈ entries) (inside : Holds value entry) :
      Holds value (.nested member entries)

/-- The expression stores the number in one of its positions. -/
inductive ExprKind.Stores : ExprKind LocalId ExprId StmtId → Reference → Prop where
  | source {source : LocalId} : Stores (.read source) (.localVar source)
  | castOperand {operand : ExprId} : Stores (.cast operand) (.expr operand)
  | memberReceiver {receiver : ExprId} {member : Member} :
      Stores (.member (some receiver) member) (.expr receiver)
  | indexReceiver {receiver position : ExprId} : Stores (.index receiver position) (.expr receiver)
  | indexPosition {receiver position : ExprId} : Stores (.index receiver position) (.expr position)
  | callReceiver {receiver : ExprId} {method : Signature} {arguments : List (Argument ExprId)} :
      Stores (.call (some receiver) method arguments) (.expr receiver)
  | callArgument {receiver? : Option ExprId} {method : Signature}
      {arguments : List (Argument ExprId)} {argument : Argument ExprId}
      (listed : argument ∈ arguments) :
      Stores (.call receiver? method arguments) (.expr argument.value)
  | createArgument {constructor? : Option Signature} {arguments : List (Argument ExprId)}
      {initializers : List (Initializer ExprId)} {argument : Argument ExprId}
      (listed : argument ∈ arguments) :
      Stores (.create constructor? arguments initializers) (.expr argument.value)
  | createEntry {constructor? : Option Signature} {arguments : List (Argument ExprId)}
      {initializers : List (Initializer ExprId)} {entry : Initializer ExprId} {value : ExprId}
      (listed : entry ∈ initializers) (inside : entry.Holds value) :
      Stores (.create constructor? arguments initializers) (.expr value)
  | item {element? : Option Ty} {items : List ExprId} {item : ExprId} (listed : item ∈ items) :
      Stores (.array element? items) (.expr item)
  | condition {condition whenTrue whenFalse : ExprId} :
      Stores (.conditional condition whenTrue whenFalse) (.expr condition)
  | whenTrue {condition whenTrue whenFalse : ExprId} :
      Stores (.conditional condition whenTrue whenFalse) (.expr whenTrue)
  | whenFalse {condition whenTrue whenFalse : ExprId} :
      Stores (.conditional condition whenTrue whenFalse) (.expr whenFalse)
  | coalesceLeft {left right : ExprId} : Stores (.coalesce left right) (.expr left)
  | coalesceRight {left right : ExprId} : Stores (.coalesce left right) (.expr right)
  | binaryLeft {operator : BinaryOp} {left right : ExprId} :
      Stores (.binary operator left right) (.expr left)
  | binaryRight {operator : BinaryOp} {left right : ExprId} :
      Stores (.binary operator left right) (.expr right)
  | unaryOperand {operator : UnaryOp} {operand : ExprId} :
      Stores (.unary operator operand) (.expr operand)
  | testOperand {operand : ExprId} {pattern : Pattern} :
      Stores (.test operand pattern) (.expr operand)
  | suppressOperand {operand : ExprId} : Stores (.suppress operand) (.expr operand)
  | target {target value : ExprId} : Stores (.assign target value) (.expr target)
  | assigned {target value : ExprId} : Stores (.assign target value) (.expr value)
  | parameter {parameters : List LocalId} {body : LambdaBody ExprId StmtId} {parameter : LocalId}
      (listed : parameter ∈ parameters) : Stores (.lambda parameters body) (.localVar parameter)
  | lambdaValue {parameters : List LocalId} {value : ExprId} :
      Stores (.lambda parameters (.expr value)) (.expr value)
  | lambdaCode {parameters : List LocalId} {code : StmtId} :
      Stores (.lambda parameters (.block code)) (.stmt code)
  | badChild {children : List ExprId} {child : ExprId} (listed : child ∈ children) :
      Stores (.bad children) (.expr child)

/-- The statement stores the number in one of its positions. -/
inductive StmtKind.Stores : StmtKind → Reference → Prop where
  | inBlock {stmts : List StmtId} {stmt : StmtId} (listed : stmt ∈ stmts) :
      Stores (.block stmts) (.stmt stmt)
  | declared {target : LocalId} {value? : Option ExprId} :
      Stores (.declare target value?) (.localVar target)
  | firstValue {target : LocalId} {value : ExprId} :
      Stores (.declare target (some value)) (.expr value)
  | evaluated {expr : ExprId} : Stores (.evaluate expr) (.expr expr)
  | ifCondition {condition : ExprId} {thenBranch : StmtId} {elseBranch? : Option StmtId} :
      Stores (.ifElse condition thenBranch elseBranch?) (.expr condition)
  | thenBranch {condition : ExprId} {thenBranch : StmtId} {elseBranch? : Option StmtId} :
      Stores (.ifElse condition thenBranch elseBranch?) (.stmt thenBranch)
  | elseBranch {condition : ExprId} {thenBranch elseBranch : StmtId} :
      Stores (.ifElse condition thenBranch (some elseBranch)) (.stmt elseBranch)
  | whileCondition {condition : ExprId} {body : StmtId} :
      Stores (.whileLoop condition body) (.expr condition)
  | whileBody {condition : ExprId} {body : StmtId} :
      Stores (.whileLoop condition body) (.stmt body)
  | doBody {body : StmtId} {condition : ExprId} : Stores (.doWhile body condition) (.stmt body)
  | doCondition {body : StmtId} {condition : ExprId} :
      Stores (.doWhile body condition) (.expr condition)
  | forInit {init : List StmtId} {condition? : Option ExprId} {updates : List ExprId}
      {body stmt : StmtId} (listed : stmt ∈ init) :
      Stores (.forLoop init condition? updates body) (.stmt stmt)
  | forCondition {init : List StmtId} {condition : ExprId} {updates : List ExprId}
      {body : StmtId} : Stores (.forLoop init (some condition) updates body) (.expr condition)
  | forUpdate {init : List StmtId} {condition? : Option ExprId} {updates : List ExprId}
      {body : StmtId} {update : ExprId} (listed : update ∈ updates) :
      Stores (.forLoop init condition? updates body) (.expr update)
  | forBody {init : List StmtId} {condition? : Option ExprId} {updates : List ExprId}
      {body : StmtId} : Stores (.forLoop init condition? updates body) (.stmt body)
  | scrutinee {scrutinee : ExprId} {arms : List (Arm StmtId)} :
      Stores (.switch scrutinee arms) (.expr scrutinee)
  | inArm {scrutinee : ExprId} {arms : List (Arm StmtId)} {arm : Arm StmtId} {stmt : StmtId}
      (listed : arm ∈ arms) (inside : stmt ∈ arm.body) :
      Stores (.switch scrutinee arms) (.stmt stmt)
  | returned {value : ExprId} : Stores (.returnValue (some value)) (.expr value)
  | thrown {value : ExprId} : Stores (.throwValue (some value)) (.expr value)

/-- The number by which a node is referred to. -/
def NodeId.reference : NodeId → Reference
  | .expr id => .expr id
  | .stmt id => .stmt id

namespace Body

/-- The node of the body stores the number. -/
inductive NodeStores (body : Body) : NodeId → Reference → Prop where
  | expr {id : ExprId} {expr : ArenaExpr} {reference : Reference}
      (found : body.exprs[id]? = some expr) (stores : expr.kind.Stores reference) :
      NodeStores body (.expr id) reference
  | stmt {id : StmtId} {stmt : Statement} {reference : Reference}
      (found : body.stmts[id]? = some stmt) (stores : stmt.kind.Stores reference) :
      NodeStores body (.stmt id) reference

/-- The body stores the number anywhere, in a node that is inside the root or in one that is not. -/
inductive Stores (body : Body) : Reference → Prop where
  | root : Stores body (.stmt body.root)
  | parameter {id : LocalId} (listed : id ∈ body.parameters) : Stores body (.localVar id)
  | inside {node : NodeId} {reference : Reference} (stores : body.NodeStores node reference) :
      Stores body reference

/-- The node is a lambda that returns the expression. -/
inductive Returns (body : Body) : NodeId → ExprId → Prop where
  | lambda {id value : ExprId} {expr : ArenaExpr} {parameters : List LocalId}
      (found : body.exprs[id]? = some expr) (kind : expr.kind = .lambda parameters (.expr value)) :
      Returns body (.expr id) value

/-- The walk through a node comes to the other node. There it looks into an arena. -/
inductive WalkVisits (body : Body) : Nat → List NodeId → List NodeId → NodeId → NodeId → Prop where
  | here {levels : Nat} {path finished : List NodeId} {node : NodeId} :
      WalkVisits body levels path finished node node
  | inside {levels : Nat} {path finished between children earlier later : List NodeId}
      {node child other : NodeId} (isNew : node ∉ finished) (notAround : node ∉ path)
      (found : body.children? node = some children)
      (split : children.reverse = earlier ++ child :: later)
      (before : earlier.foldlM
        (fun finished child => body.walk levels (node :: path) finished child) finished =
          .ok between)
      (visits : WalkVisits body levels (node :: path) between child other) :
      WalkVisits body (levels + 1) path finished node other

/-- The check of the body comes to the node. It sets out for the root once all numbers that it
lists point into their arenas. -/
def Visits (body : Body) (node : NodeId) : Prop :=
  (∀ reference ∈ body.references, body.covers reference = true) ∧
    body.WalkVisits maxNesting [] [] (.stmt body.root) node

end Body

section Listing

variable {Child : Type}

theorem mem_initializerValues {value : Child} {entries : List (Initializer Child)} :
    value ∈ initializerValues entries ↔ ∃ entry ∈ entries, value ∈ entry.values := by
  induction entries with
  | nil => simp [initializerValues]
  | cons entry rest ih => simp [initializerValues, ih]

theorem Initializer.Holds.listed {value : Child} {entry : Initializer Child}
    (holds : entry.Holds value) : value ∈ entry.values := by
  induction holds with
  | value => exact List.mem_singleton_self _
  | nested listed inside ih => exact mem_initializerValues.mpr ⟨_, listed, ih⟩

mutual

/-- An initializer holds the values that it lists. -/
theorem Initializer.holds_of_listed {value : Child} :
    ∀ entry : Initializer Child, value ∈ entry.values → entry.Holds value
  | .value member other, listed => by
      obtain rfl : value = other := List.mem_singleton.mp listed
      exact .value
  | .nested member entries, listed => by
      obtain ⟨entry, inEntries, inside⟩ := holds_of_listedAll entries listed
      exact .nested inEntries inside

theorem Initializer.holds_of_listedAll {value : Child} :
    ∀ entries : List (Initializer Child), value ∈ initializerValues entries →
      ∃ entry ∈ entries, entry.Holds value
  | entry :: rest, listed => by
      rcases List.mem_append.mp listed with first | later
      · exact ⟨entry, List.mem_cons_self, holds_of_listed entry first⟩
      · obtain ⟨other, inRest, inside⟩ := holds_of_listedAll rest later
        exact ⟨other, List.mem_cons_of_mem _ inRest, inside⟩

end

end Listing

/-- An expression lists what it stores, except for the expression that a lambda returns. -/
theorem ExprKind.Stores.listed {expr : ArenaExpr} {reference : Reference}
    (stores : expr.kind.Stores reference) : reference ∈ Body.exprReferences expr ∨
      ∃ parameters value, expr.kind = .lambda parameters (.expr value) ∧
        reference = .expr value := by
  obtain ⟨kind, ty?, span⟩ := expr
  cases stores with
  | lambdaValue => exact Or.inr ⟨_, _, rfl, rfl⟩
  | createEntry listed inside =>
      have found := mem_initializerValues.mpr ⟨_, listed, inside.listed⟩
      exact Or.inl (by simp [Body.exprReferences, ExprKind.children, found])
  | @parameter parameters body parameter listed =>
      cases body <;> exact Or.inl (by simp [Body.exprReferences, ExprKind.children, listed])
  | callArgument listed =>
      exact Or.inl (by
        simp only [Body.exprReferences, ExprKind.children, List.append_nil, List.map_append,
          List.mem_append, List.mem_map]
        exact Or.inr ⟨_, ⟨_, listed, rfl⟩, rfl⟩)
  | createArgument listed =>
      exact Or.inl (by
        simp only [Body.exprReferences, ExprKind.children, List.append_nil, List.map_append,
          List.mem_append, List.mem_map]
        exact Or.inl ⟨_, ⟨_, listed, rfl⟩, rfl⟩)
  | _ => exact Or.inl (by simp_all [Body.exprReferences, ExprKind.children])

/-- A statement lists everything that it stores. -/
theorem StmtKind.Stores.listed {stmt : Statement} {reference : Reference}
    (stores : stmt.kind.Stores reference) : reference ∈ Body.stmtReferences stmt := by
  obtain ⟨kind, span⟩ := stmt
  cases stores with
  | inArm listed inside =>
      have found := List.mem_flatMap.mpr ⟨_, listed, inside⟩
      simp only [Body.stmtReferences, StmtKind.childStmts, List.mem_append, List.mem_map]
      exact Or.inl (Or.inl ⟨_, found, rfl⟩)
  | _ => simp_all [Body.stmtReferences, StmtKind.childStmts, StmtKind.childExprs]

/-- Every child of an expression stands in one of its positions. -/
theorem ExprKind.stores_of_child {kind : ExprKind LocalId ExprId StmtId} {child : ExprId}
    (listed : child ∈ kind.children) : kind.Stores (.expr child) := by
  cases kind with
  | cast operand =>
      obtain rfl := List.mem_singleton.mp listed
      exact .castOperand
  | unary operator operand =>
      obtain rfl := List.mem_singleton.mp listed
      exact .unaryOperand
  | test operand pattern =>
      obtain rfl := List.mem_singleton.mp listed
      exact .testOperand
  | suppress operand =>
      obtain rfl := List.mem_singleton.mp listed
      exact .suppressOperand
  | member receiver? member =>
      obtain rfl := Option.mem_toList.mp listed
      exact .memberReceiver
  | index receiver position =>
      obtain rfl | rfl := List.mem_pair.mp listed
      · exact .indexReceiver
      · exact .indexPosition
  | call receiver? method arguments =>
      rcases List.mem_append.mp listed with inReceiver | inArguments
      · obtain rfl := Option.mem_toList.mp inReceiver
        exact .callReceiver
      · obtain ⟨argument, given, rfl⟩ := List.mem_map.mp inArguments
        exact .callArgument given
  | create constructor? arguments initializers =>
      rcases List.mem_append.mp listed with inArguments | inEntries
      · obtain ⟨argument, given, rfl⟩ := List.mem_map.mp inArguments
        exact .createArgument given
      · obtain ⟨entry, inEntries, inside⟩ := Initializer.holds_of_listedAll initializers inEntries
        exact .createEntry inEntries inside
  | array element? items => exact .item listed
  | conditional condition whenTrue whenFalse =>
      simp only [children, List.mem_cons, List.not_mem_nil, or_false] at listed
      obtain rfl | rfl | rfl := listed
      · exact .condition
      · exact .whenTrue
      · exact .whenFalse
  | coalesce left right =>
      obtain rfl | rfl := List.mem_pair.mp listed
      · exact .coalesceLeft
      · exact .coalesceRight
  | binary operator left right =>
      obtain rfl | rfl := List.mem_pair.mp listed
      · exact .binaryLeft
      · exact .binaryRight
  | assign target value =>
      obtain rfl | rfl := List.mem_pair.mp listed
      · exact .target
      · exact .assigned
  | bad others => exact .badChild listed
  | _ => cases listed

theorem StmtKind.stores_of_childStmt {kind : StmtKind} {child : StmtId}
    (listed : child ∈ kind.childStmts) : kind.Stores (.stmt child) := by
  cases kind with
  | block stmts => exact .inBlock listed
  | ifElse condition thenBranch elseBranch? =>
      rcases List.mem_cons.mp listed with rfl | inElse
      · exact .thenBranch
      · obtain rfl := Option.mem_toList.mp inElse
        exact .elseBranch
  | whileLoop condition body =>
      obtain rfl := List.mem_singleton.mp listed
      exact .whileBody
  | doWhile body condition =>
      obtain rfl := List.mem_singleton.mp listed
      exact .doBody
  | forLoop init condition? updates body =>
      rcases List.mem_append.mp listed with inInit | inBody
      · exact .forInit inInit
      · obtain rfl := List.mem_singleton.mp inBody
        exact .forBody
  | switch scrutinee arms =>
      obtain ⟨arm, inArms, inside⟩ := List.mem_flatMap.mp listed
      exact .inArm inArms inside
  | _ => cases listed

theorem StmtKind.stores_of_childExpr {kind : StmtKind} {child : ExprId}
    (listed : child ∈ kind.childExprs) : kind.Stores (.expr child) := by
  cases kind with
  | declare target value? =>
      obtain rfl := Option.mem_toList.mp listed
      exact .firstValue
  | evaluate expr =>
      obtain rfl := List.mem_singleton.mp listed
      exact .evaluated
  | ifElse condition thenBranch elseBranch? =>
      obtain rfl := List.mem_singleton.mp listed
      exact .ifCondition
  | whileLoop condition body =>
      obtain rfl := List.mem_singleton.mp listed
      exact .whileCondition
  | doWhile body condition =>
      obtain rfl := List.mem_singleton.mp listed
      exact .doCondition
  | forLoop init condition? updates body =>
      rcases List.mem_append.mp listed with inCondition | inUpdates
      · obtain rfl := Option.mem_toList.mp inCondition
        exact .forCondition
      · exact .forUpdate inUpdates
  | switch scrutinee arms =>
      obtain rfl := List.mem_singleton.mp listed
      exact .scrutinee
  | returnValue value? =>
      obtain rfl := Option.mem_toList.mp listed
      exact .returned
  | throwValue value? =>
      obtain rfl := Option.mem_toList.mp listed
      exact .thrown
  | _ => cases listed

/-- An expression stores the references that are checked for it. -/
theorem ExprKind.stores_of_listed {expr : ArenaExpr} {reference : Reference}
    (listed : reference ∈ Body.exprReferences expr) : expr.kind.Stores reference := by
  rcases List.mem_append.mp listed with inChildren | ofKind
  · obtain ⟨child, member, rfl⟩ := List.mem_map.mp inChildren
    exact stores_of_child member
  · split at ofKind
    · rename_i source same
      obtain rfl := List.mem_singleton.mp ofKind
      exact same ▸ .source
    · rename_i parameters value same
      obtain ⟨parameter, member, rfl⟩ := List.mem_map.mp ofKind
      exact same ▸ .parameter member
    · rename_i parameters code same
      rcases List.mem_append.mp ofKind with inParameters | isCode
      · obtain ⟨parameter, member, rfl⟩ := List.mem_map.mp inParameters
        exact same ▸ .parameter member
      · obtain rfl := List.mem_singleton.mp isCode
        exact same ▸ .lambdaCode
    · cases ofKind

/-- A statement stores the references that are checked for it. -/
theorem StmtKind.stores_of_listed {stmt : Statement} {reference : Reference}
    (listed : reference ∈ Body.stmtReferences stmt) : stmt.kind.Stores reference := by
  rcases List.mem_append.mp listed with inChildren | ofKind
  · rcases List.mem_append.mp inChildren with inStmts | inExprs
    · obtain ⟨child, member, rfl⟩ := List.mem_map.mp inStmts
      exact stores_of_childStmt member
    · obtain ⟨child, member, rfl⟩ := List.mem_map.mp inExprs
      exact stores_of_childExpr member
  · split at ofKind
    · rename_i target value? same
      obtain rfl := List.mem_singleton.mp ofKind
      exact same ▸ .declared
    · cases ofKind

namespace Body

variable {body : Body}

/-- A body lists what its nodes store, except for the expressions that lambdas return. -/
theorem NodeStores.listed {node : NodeId} {reference : Reference}
    (stores : body.NodeStores node reference) :
    reference ∈ body.references ∨ ∃ value, body.Returns node value ∧ reference = .expr value := by
  cases stores with
  | @expr id expr _ found stores =>
      rcases stores.listed with listed | ⟨parameters, value, kind, rfl⟩
      · have inArena : expr ∈ body.exprs.toList := Array.mem_toList_iff.mpr
          (Array.mem_of_getElem? found)
        have inExprs := List.mem_flatMap.mpr ⟨expr, inArena, listed⟩
        exact Or.inl (List.mem_append_left _ (List.mem_append_right _ inExprs))
      · exact Or.inr ⟨value, .lambda found kind, rfl⟩
  | @stmt id stmt _ found stores =>
      have inArena : stmt ∈ body.stmts.toList := Array.mem_toList_iff.mpr
        (Array.mem_of_getElem? found)
      have inStmts := List.mem_flatMap.mpr ⟨stmt, inArena, stores.listed⟩
      exact Or.inl (List.mem_append_right _ inStmts)

/-- The parameters of a body are checked. -/
theorem parameter_listed {id : LocalId} (listed : id ∈ body.parameters) :
    .localVar id ∈ body.references := by
  have inParameters : Reference.localVar id ∈ body.parameters.map Reference.localVar :=
    List.mem_map_of_mem listed
  exact List.mem_append_left _ (List.mem_append_left _ (List.mem_cons_of_mem _ inParameters))

/-- The root of a body is checked. -/
theorem root_listed : .stmt body.root ∈ body.references :=
  List.mem_append_left _ (List.mem_append_left _ List.mem_cons_self)

theorem Returns.contains {node : NodeId} {value : ExprId} (returns : body.Returns node value) :
    body.Contains node (.expr value) := by
  cases returns with
  | @lambda id value expr parameters found kind =>
      refine ⟨[.expr value], ?_, List.mem_singleton_self _⟩
      simp [children?, found, kind, ExprKind.children]

/-- A body stores every number that it lists. -/
theorem stores_of_listed {reference : Reference} (listed : reference ∈ body.references) :
    body.Stores reference := by
  rcases List.mem_append.mp listed with beforeStmts | inStmts
  · rcases List.mem_append.mp beforeStmts with beforeExprs | inExprs
    · rcases List.mem_cons.mp beforeExprs with rfl | inParameters
      · exact .root
      · obtain ⟨id, member, rfl⟩ := List.mem_map.mp inParameters
        exact .parameter member
    · obtain ⟨expr, inArena, inExpr⟩ := List.mem_flatMap.mp inExprs
      obtain ⟨id, found⟩ := Array.getElem?_of_mem (Array.mem_toList_iff.mp inArena)
      exact .inside (.expr found (ExprKind.stores_of_listed inExpr))
  · obtain ⟨stmt, inArena, inStmt⟩ := List.mem_flatMap.mp inStmts
    obtain ⟨id, found⟩ := Array.getElem?_of_mem (Array.mem_toList_iff.mp inArena)
    exact .inside (.stmt found (StmtKind.stores_of_listed inStmt))

/-- What lies directly inside a node is stored by it. -/
theorem Contains.stores {parent child : NodeId} (contains : body.Contains parent child) :
    body.NodeStores parent child.reference := by
  obtain ⟨children, found, member⟩ := contains
  cases parent with
  | expr id =>
      obtain ⟨⟨kind, ty?, span⟩, atExpr, rfl⟩ := Option.map_eq_some_iff.mp found
      apply NodeStores.expr atExpr
      rcases List.mem_append.mp member with direct | inLambda
      · obtain ⟨child, listed, rfl⟩ := List.mem_map.mp direct
        exact ExprKind.stores_of_child listed
      · split at inLambda
        · rename_i parameters value same
          obtain rfl := List.mem_singleton.mp inLambda
          exact same ▸ .lambdaValue
        · rename_i parameters code same
          obtain rfl := List.mem_singleton.mp inLambda
          exact same ▸ .lambdaCode
        · cases inLambda
  | stmt id =>
      obtain ⟨stmt, atStmt, rfl⟩ := Option.map_eq_some_iff.mp found
      apply NodeStores.stmt atStmt
      rcases List.mem_append.mp member with inStmts | inExprs
      · obtain ⟨child, listed, rfl⟩ := List.mem_map.mp inStmts
        exact StmtKind.stores_of_childStmt listed
      · obtain ⟨child, listed, rfl⟩ := List.mem_map.mp inExprs
        exact StmtKind.stores_of_childExpr listed

/-- A node has no children to tell of if its number points outside its arena. -/
theorem children?_eq_none {node : NodeId} :
    body.children? node = none ↔ body.covers node.reference = false := by
  cases node <;> simp [children?, covers, NodeId.reference]

/-- The check comes only to nodes inside the root. -/
theorem WalkVisits.reaches {levels : Nat} {path finished : List NodeId} {node other : NodeId}
    (visits : body.WalkVisits levels path finished node other) (reached : body.Reaches node) :
    body.Reaches other := by
  induction visits with
  | here => exact reached
  | @inside levels path finished between children earlier later node child other isNew notAround
      found split before visits ih =>
      have member : child ∈ children := by
        rw [← List.mem_reverse, split]
        simp
      exact ih (reached.tail ⟨children, found, member⟩)

/-- If the lambdas inside the root return expressions of the arena, then the check comes only to
nodes of the arenas. -/
theorem Visits.covered (returned : ∀ node value, body.Reaches node → body.Returns node value →
    body.covers (.expr value) = true) {node : NodeId} (visits : body.Visits node) :
    body.covers node.reference = true := by
  obtain ⟨listed, visits⟩ := visits
  have reached := visits.reaches .refl
  cases reached with
  | refl => exact listed _ root_listed
  | @tail parent _ before contains =>
      rcases contains.stores.listed with isListed | ⟨value, returns, same⟩
      · exact listed _ isListed
      · rw [same]
        exact returned parent value before returns

/-- The numbers that a valid body stores point into their arenas, except for what a lambda outside
the root returns. -/
theorem NodeStores.covered (valid : body.validate = .ok ()) {node : NodeId} {reference : Reference}
    (stores : body.NodeStores node reference) : body.covers reference = true ∨
      ∃ value, body.Returns node value ∧ reference = .expr value ∧ ¬body.Reaches node := by
  rcases stores.listed with listed | ⟨value, returns, rfl⟩
  · exact Or.inl (valid_covers valid listed)
  · by_cases reached : body.Reaches node
    · obtain ⟨nodes, founded, hasRoot⟩ := valid_founded valid
      have member := founded.reached hasRoot (reached.tail returns.contains)
      obtain ⟨children, found, -⟩ := founded.children member
      left
      by_contra outside
      have missing : body.children? (.expr value) = none :=
        children?_eq_none.mpr (Bool.eq_false_iff.mpr outside)
      rw [missing] at found
      cases found
    · exact Or.inr ⟨value, returns, rfl, reached⟩

/-- The check of a body looks only at nodes of the arenas, provided that the lambdas inside the root
return such nodes. If it finds no defect, every number that the body stores points into its arena,
except for what a lambda outside the root returns. -/
theorem validate_checks_references (body : Body) :
    ((∀ node value, body.Reaches node → body.Returns node value →
        body.covers (.expr value) = true) →
      ∀ node, body.Visits node → body.covers node.reference = true) ∧
    (body.validate = .ok () →
      body.covers (.stmt body.root) = true ∧
      (∀ id ∈ body.parameters, body.covers (.localVar id) = true) ∧
      ∀ node reference, body.NodeStores node reference → body.covers reference = true ∨
        ∃ value, body.Returns node value ∧ reference = .expr value ∧ ¬body.Reaches node) := by
  constructor
  · intro returned node visits
    exact visits.covered returned
  · intro valid
    refine ⟨valid_covers valid root_listed, fun id listed => ?_, fun node reference stores => ?_⟩
    · exact valid_covers valid (parameter_listed listed)
    · exact stores.covered valid

section Lambdas

/-- A lambda that returns the expression, below or beside the only statement. -/
def lambdaBeside (kind : StmtKind) (value : ExprId) : Body where
  name := "M"
  span? := none
  thisType? := none
  parameters := []
  returnType := .void
  locals := #[]
  exprs := #[⟨.literal .null, none, .none⟩, ⟨.lambda [] (.expr value), none, .none⟩]
  stmts := #[⟨kind, .none⟩]
  root := 0

/-- The lambda of the body returns one value. -/
theorem lambdaBeside_returns_only {kind : StmtKind} {value other : ExprId} {node : NodeId}
    (returns : (lambdaBeside kind value).Returns node other) : other = value := by
  cases returns with
  | @lambda id other expr parameters found same =>
      match id, found with
      | 0, found =>
          cases found
          cases same
      | 1, found =>
          cases found
          cases same
          rfl

/-- Nobody checks what a lambda outside the root returns. -/
theorem strayLambda_stores_outside : (lambdaBeside .empty 7).validate = .ok () ∧
    ∃ reference, (lambdaBeside .empty 7).Stores reference ∧
      (lambdaBeside .empty 7).covers reference = false := by
  have stores : (lambdaBeside .empty 7).NodeStores (.expr 1) (.expr 7) := .expr rfl .lambdaValue
  exact ⟨by decide +kernel, .expr 7, .inside stores, rfl⟩

/-- The check follows a lambda inside the root to an expression that is not there. -/
theorem innerLambda_visits_outside : ∃ node, (lambdaBeside (.evaluate 1) 7).Visits node ∧
    (lambdaBeside (.evaluate 1) 7).covers node.reference = false := by
  have only : ∀ child : NodeId, [child].reverse = [] ++ child :: [] := fun _ => rfl
  have inStmt : (lambdaBeside (.evaluate 1) 7).children? (.stmt 0) = some [.expr 1] := rfl
  have inLambda : (lambdaBeside (.evaluate 1) 7).children? (.expr 1) = some [.expr 7] := rfl
  refine ⟨.expr 7, ⟨by decide, ?_⟩, rfl⟩
  apply WalkVisits.inside (by simp) (by simp) inStmt (only _) rfl
  exact .inside (by simp) (by decide) inLambda (only _) rfl .here

/-- A body with a lambda that is one expression is accepted, and it covers the value that its lambda
returns. -/
theorem innerLambda_references_checked :
    (∀ node, (lambdaBeside (.evaluate 1) 0).Visits node →
      (lambdaBeside (.evaluate 1) 0).covers node.reference = true) ∧
    (lambdaBeside (.evaluate 1) 0).validate = .ok () ∧
    (lambdaBeside (.evaluate 1) 0).NodeStores (.expr 1) (.expr 0) ∧
    ∀ node reference, (lambdaBeside (.evaluate 1) 0).NodeStores node reference →
      (lambdaBeside (.evaluate 1) 0).covers reference = true ∨
        ∃ value, (lambdaBeside (.evaluate 1) 0).Returns node value ∧ reference = .expr value ∧
          ¬(lambdaBeside (.evaluate 1) 0).Reaches node := by
  obtain ⟨visited, stored⟩ := validate_checks_references (lambdaBeside (.evaluate 1) 0)
  have valid : (lambdaBeside (.evaluate 1) 0).validate = .ok () := by decide +kernel
  refine ⟨visited fun node value _ returns => ?_, valid, .expr rfl .lambdaValue, (stored valid).2.2⟩
  rw [lambdaBeside_returns_only returns]
  rfl

end Lambdas

end Body

end NullFlow
