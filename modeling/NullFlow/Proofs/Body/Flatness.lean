import NullFlow.Proofs.Body.Caps
import NullFlow.Proofs.Body.Forests
/-!
Flat bodies: no lambdas, no arrays, no type with inner positions, and one type for all members of a
name. Their code is flat in all states that the solver may find, and strictly so if members are
assigned through places that the analysis tracks.
-/

namespace NullFlow

def StmtKind.types : StmtKind → List Ty
  | .switch _ arms => arms.flatMap fun arm => arm.pattern?.toList.flatMap Pattern.types
  | _ => []

section Contents

variable {Var Child Code Var' Child' Code' : Type}
variable {var : Var → Option Var'} {child : Child → Option Child'} {code : Code → Option Code'}

mutual

/-- Resolving the values of an initializer leaves its members alone. -/
theorem members_resolveInitializer : ∀ {entry : Initializer Child} {made : Initializer Child'},
    entry.resolve child = some made → made.members = entry.members
  | .value member value, made, resolved => by
      rw [Initializer.resolve] at resolved
      obtain ⟨found, _, same⟩ := Option.bind_eq_some_iff.mp resolved
      obtain rfl : _ = made := Option.some.inj same
      rfl
  | .nested member entries, made, resolved => by
      rw [Initializer.resolve] at resolved
      obtain ⟨found, isFound, same⟩ := Option.bind_eq_some_iff.mp resolved
      obtain rfl : _ = made := Option.some.inj same
      exact congrArg (member :: ·) (members_resolveInitializers isFound)

theorem members_resolveInitializers : ∀ {entries : List (Initializer Child)}
    {made : List (Initializer Child')}, resolveInitializers child entries = some made →
    initializerMembers made = initializerMembers entries
  | [], made, resolved => by
      obtain rfl : [] = made := Option.some.inj resolved
      rfl
  | entry :: rest, made, resolved => by
      rw [resolveInitializers] at resolved
      obtain ⟨first, isFirst, others⟩ := Option.bind_eq_some_iff.mp resolved
      obtain ⟨more, areMore, same⟩ := Option.bind_eq_some_iff.mp others
      obtain rfl : first :: more = made := Option.some.inj same
      rw [initializerMembers, initializerMembers, members_resolveInitializer isFirst,
        members_resolveInitializers areMore]

end

/-- A tree names what its arena expression names. -/
theorem ExprKind.resolve_names {kind : ExprKind Var Child Code} {made : ExprKind Var' Child' Code'}
    (resolved : kind.resolve var child code = some made) :
    made.members = kind.members ∧ made.callees = kind.callees ∧ made.isArray = kind.isArray ∧
      made.isLambda = kind.isLambda := by
  cases kind with
  | create constructor? arguments initializers =>
      obtain ⟨values, _, others⟩ := Option.bind_eq_some_iff.mp resolved
      obtain ⟨entries, areEntries, same⟩ := Option.bind_eq_some_iff.mp others
      obtain rfl : _ = made := Option.some.inj same
      exact ⟨members_resolveInitializers areEntries, rfl, rfl, rfl⟩
  | _ =>
      -- No other expression names anything inside its parts.
      simp only [ExprKind.resolve, Option.pure_def, Option.bind_eq_bind, Option.bind_eq_some_iff,
        Option.some.injEq] at resolved
      grind [ExprKind.members, ExprKind.callees, ExprKind.isArray, ExprKind.isLambda]

/-- The tree of a member of an object. -/
theorem ExprKind.resolve_member {kind : ExprKind Var Child Code} {receiver : Child'}
    {selected : Member}
    (resolved : kind.resolve var child code = some (.member (some receiver) selected)) :
    ∃ number, kind = .member (some number) selected ∧ child number = some receiver := by
  cases kind with
  | member receiver? other =>
      obtain ⟨made?, isMade, same⟩ := Option.bind_eq_some_iff.mp resolved
      obtain ⟨rfl, rfl⟩ := ExprKind.member.inj (Option.some.inj same)
      cases receiver? with
      | none => cases isMade
      | some number =>
          obtain ⟨made, isTree, same⟩ := Option.map_eq_some_iff.mp isMade
          obtain rfl := Option.some.inj same
          exact ⟨number, rfl, isTree⟩
  | _ => simp [ExprKind.resolve, Option.bind_eq_some_iff] at resolved

/-- Only an assignment is resolved to one. -/
theorem ExprKind.resolve_assign {kind : ExprKind Var Child Code} {target value : Child'}
    (resolved : kind.resolve var child code = some (.assign target value)) :
    ∃ number other, kind = .assign number other ∧ child number = some target := by
  cases kind with
  | assign number other =>
      obtain ⟨made, isMade, others⟩ := Option.bind_eq_some_iff.mp resolved
      obtain ⟨second, _, same⟩ := Option.bind_eq_some_iff.mp others
      obtain ⟨rfl, _⟩ := ExprKind.assign.inj (Option.some.inj same)
      exact ⟨number, other, rfl, isMade⟩
  | _ => simp [ExprKind.resolve, Option.bind_eq_some_iff] at resolved

end Contents

section Trees

variable {layout : Layout} {lenient : Bool}

theorem flatArguments_fold {arguments : List (Argument Expr)}
    (parts : ∀ child ∈ arguments.map Argument.value, (child.outline layout lenient).flat = true) :
    Outline.flatArguments (delayArguments (Outline.ofNode layout lenient) arguments) = true := by
  rw [Outline.flatArguments, delayArguments_eq_map, List.all_map, List.all_eq_true]
  exact fun argument member => parts _ (List.mem_map_of_mem member)

mutual

/-- An initializer is flat if its members are covered and its values are flat. -/
theorem flatInitializer_fold : ∀ {entry : Initializer Expr},
    (∀ member ∈ entry.members, layout.coversMember member = true) →
    (∀ child ∈ entry.values, (child.outline layout lenient).flat = true) →
    Outline.flatInitializer layout (delayInitializer (Outline.ofNode layout lenient) entry) = true
  | .value member value, covered, parts =>
      Bool.and_eq_true_iff.mpr ⟨covered member List.mem_cons_self, parts value List.mem_cons_self⟩
  | .nested member _, covered, parts =>
      Bool.and_eq_true_iff.mpr ⟨covered member List.mem_cons_self, flatInitializers_fold
        (fun other inside => covered other (List.mem_cons_of_mem _ inside)) parts⟩

theorem flatInitializers_fold : ∀ {entries : List (Initializer Expr)},
    (∀ member ∈ initializerMembers entries, layout.coversMember member = true) →
    (∀ child ∈ initializerValues entries, (child.outline layout lenient).flat = true) →
    Outline.flatInitializers layout
      (delayInitializers (Outline.ofNode layout lenient) entries) = true
  | [], _, _ => rfl
  | entry :: rest, covered, parts => by
      obtain ⟨coveredEntry, coveredRest⟩ := List.forall_mem_append.mp covered
      obtain ⟨partsEntry, partsRest⟩ := List.forall_mem_append.mp parts
      exact Bool.and_eq_true_iff.mpr ⟨flatInitializer_fold coveredEntry partsEntry,
        flatInitializers_fold coveredRest partsRest⟩

end

/-- An expression is flat if its parts are and what it names itself is. -/
theorem outline_flat {node : Node Variable Expr Code} (typed : Outline.flatType node.ty? = true)
    (noArray : node.kind.isArray = false) (noLambda : node.kind.isLambda = false)
    (source : ∀ source, node.kind = .read source → layout.coversVariable source = true)
    (members : ∀ member ∈ node.kind.members, layout.coversMember member = true)
    (callees : ∀ callee ∈ node.kind.callees, callee.returnType.isBasic = true)
    (settled : ∀ target value, node.kind = .assign target value →
      (target.outline layout lenient).settled = true)
    (parts : ∀ child ∈ node.kind.children, (child.outline layout lenient).flat = true) :
    ((Expr.node node).outline layout lenient).flat = true := by
  obtain ⟨kind, ty?, span⟩ := node
  refine Bool.and_eq_true_iff.mpr ⟨typed, ?_⟩
  cases kind with
  | read place => exact source place rfl
  | this => rfl
  | literal value => rfl
  | defaultValue => rfl
  | array element? items => cases noArray
  | lambda parameters code => cases noLambda
  | cast operand => exact parts operand List.mem_cons_self
  | unary operator operand => exact parts operand List.mem_cons_self
  | test operand pattern => exact parts operand List.mem_cons_self
  | suppress operand => exact parts operand List.mem_cons_self
  | member receiver? selected =>
      have covered := members selected List.mem_cons_self
      cases receiver? with
      | none =>
          obtain ⟨flat, _⟩ := Bool.and_eq_true_iff.mp (Bool.and_eq_true_iff.mp covered).1
          exact flat
      | some receiver =>
          exact Bool.and_eq_true_iff.mpr ⟨parts receiver List.mem_cons_self, covered⟩
  | call receiver? method arguments =>
      obtain ⟨ofReceiver, ofArguments⟩ := List.forall_mem_append.mp parts
      have basic := callees method List.mem_cons_self
      have receiver : (delayOption (Outline.ofNode layout lenient) receiver?).all
          (fun receiver => receiver.get.flat) = true := by
        cases receiver? with
        | none => rfl
        | some receiver => exact ofReceiver receiver List.mem_cons_self
      simp only [foldKind, Outline.flatKind, Bool.and_eq_true]
      exact ⟨⟨⟨receiver, flatArguments_fold ofArguments⟩, Ty.isFlat_of_basic basic⟩,
        Ty.isClosed_of_basic basic⟩
  | create constructor? arguments initializers =>
      obtain ⟨ofArguments, ofEntries⟩ := List.forall_mem_append.mp parts
      exact Bool.and_eq_true_iff.mpr ⟨flatArguments_fold ofArguments,
        flatInitializers_fold members ofEntries⟩
  | assign target value =>
      obtain ⟨first, rest⟩ := List.forall_mem_cons.mp parts
      exact Bool.and_eq_true_iff.mpr ⟨Bool.and_eq_true_iff.mpr ⟨first, settled target value rfl⟩,
        (List.forall_mem_cons.mp rest).1⟩
  | bad children =>
      rw [foldKind, Outline.flatKind, delayAll_eq_map, List.all_map, List.all_eq_true]
      exact parts
  | index receiver position =>
      obtain ⟨first, rest⟩ := List.forall_mem_cons.mp parts
      exact Bool.and_eq_true_iff.mpr ⟨first, (List.forall_mem_cons.mp rest).1⟩
  | coalesce left right =>
      obtain ⟨first, rest⟩ := List.forall_mem_cons.mp parts
      exact Bool.and_eq_true_iff.mpr ⟨first, (List.forall_mem_cons.mp rest).1⟩
  | binary operator left right =>
      obtain ⟨first, rest⟩ := List.forall_mem_cons.mp parts
      exact Bool.and_eq_true_iff.mpr ⟨first, (List.forall_mem_cons.mp rest).1⟩
  | conditional condition whenTrue whenFalse =>
      obtain ⟨first, rest⟩ := List.forall_mem_cons.mp parts
      obtain ⟨second, rest⟩ := List.forall_mem_cons.mp rest
      exact Bool.and_eq_true_iff.mpr ⟨Bool.and_eq_true_iff.mpr ⟨first, second⟩,
        (List.forall_mem_cons.mp rest).1⟩

/-- An assignment to anything but a member of an object writes to one slot at most. -/
theorem settledKind_fold {kind : ExprKind Variable Expr Code}
    (other : ∀ receiver selected, kind ≠ .member (some receiver) selected) :
    Outline.settledKind (foldKind (Outline.ofNode layout lenient) kind) = true := by
  cases kind with
  | member receiver? selected =>
      cases receiver? with
      | none => rfl
      | some receiver => exact absurd rfl (other receiver selected)
  | lambda parameters body => cases body <;> rfl
  | _ => rfl

end Trees

namespace Body

section Definitions

variable (body : Body)

/-- All members that the expressions of the body name. -/
def members : List Member := body.exprs.toList.flatMap fun node => node.kind.members

/-- All methods and constructors that the expressions of the body call. -/
def callees : List Signature := body.exprs.toList.flatMap fun node => node.kind.callees

/-- All types in the body. -/
def types : List Ty :=
  body.returnType :: (body.thisType?.toList ++ body.locals.toList.map Local.ty ++
    body.exprs.toList.flatMap (fun node => node.ty?.toList ++ node.kind.types) ++
    body.stmts.toList.flatMap fun stmt => stmt.kind.types)

/-- The body makes no lambdas and no arrays, no type has inner positions, and a member is known by
its name. -/
structure Flat : Prop where
  noLambda : ∀ node ∈ body.exprs.toList, node.kind.isLambda = false
  noArray : ∀ node ∈ body.exprs.toList, node.kind.isArray = false
  types : ∀ ty ∈ body.types, ty.isBasic = true
  callees : ∀ callee ∈ body.callees, callee.typeParameters = []
  members : ∀ member ∈ body.members, ∀ other ∈ body.members, member.name = other.name →
    member.ty = other.ty

/-- The declared state of all members of a name. -/
def memberState (name : String) : FlowState :=
  match body.members.find? fun member => member.name == name with
  | some member => member.ty.declaredState
  | none => .maybeNull

def kind? (id : ExprId) : Option (ExprKind LocalId ExprId StmtId) := body.exprs[id]?.map Node.kind

/-- The expression denotes a place that the analysis tracks: a local, `this`, or a member of such a
place. A cast, a promise and an assignment denote what their operand does. -/
inductive Denotes : ExprId → Prop where
  | read {id : ExprId} {source : LocalId} (found : body.kind? id = some (.read source)) : Denotes id
  | this {id : ExprId} (found : body.kind? id = some .this) : Denotes id
  | cast {id operand : ExprId} (found : body.kind? id = some (.cast operand))
      (inner : Denotes operand) : Denotes id
  | member {id receiver : ExprId} {selected : Member}
      (found : body.kind? id = some (.member (some receiver) selected)) (inner : Denotes receiver) :
      Denotes id
  | suppress {id operand : ExprId} (found : body.kind? id = some (.suppress operand))
      (inner : Denotes operand) : Denotes id
  | assign {id target value : ExprId} (found : body.kind? id = some (.assign target value))
      (inner : Denotes target) : Denotes id

/-- If the expression is a member of an object, then of one in a tracked place. -/
def Anchored (id : ExprId) : Prop :=
  ∀ receiver selected, body.kind? id = some (.member (some receiver) selected) →
    body.Denotes receiver

/-- Members are assigned through tracked places alone. -/
def WritesTracked : Prop :=
  ∀ id target value, body.kind? id = some (.assign target value) → body.Anchored target

end Definitions

variable {body : Body}

section Covers

/-- The types of an expression are types of the body. -/
theorem mem_types_of_expr {node : ArenaExpr} (inBody : node ∈ body.exprs.toList) {ty : Ty}
    (member : ty ∈ node.ty?.toList ++ node.kind.types) : ty ∈ body.types := by
  refine List.mem_cons_of_mem _ (List.mem_append_left _ (List.mem_append_right _ ?_))
  exact List.mem_flatMap.mpr ⟨node, inBody, member⟩

theorem mem_types_of_this {ty : Ty} (isThis : ty ∈ body.thisType?) : ty ∈ body.types := by
  refine List.mem_cons_of_mem _ (List.mem_append_left _ (List.mem_append_left _ ?_))
  exact List.mem_append_left _ (Option.mem_toList.mpr isThis)

section Types

variable (types : ∀ ty ∈ body.types, ty.isBasic = true)
include types

/-- In a body of basic types every expression has one. -/
theorem isBasic_of_expr {node : ArenaExpr} (inBody : node ∈ body.exprs.toList) :
    node.ty?.all Ty.isBasic = true := by
  rw [Option.all_eq_true]
  intro ty isTy
  refine types ty (mem_types_of_expr inBody (List.mem_append_left _ ?_))
  exact Option.mem_toList.mpr isTy

theorem flatType_of_types {node : ArenaExpr} (inBody : node ∈ body.exprs.toList) :
    Outline.flatType node.ty? = true := by
  have basic := isBasic_of_expr types inBody
  cases isTy : node.ty? with
  | none => rfl
  | some ty =>
      rw [isTy] at basic
      exact Ty.isFlat_of_basic basic

theorem isBasic_of_callee {node : ArenaExpr} (inBody : node ∈ body.exprs.toList)
    {callee : Signature} (called : callee ∈ node.kind.callees) {ty : Ty}
    (member : ty ∈ callee.types) : ty.isBasic = true := by
  refine types _ (mem_types_of_expr inBody (List.mem_append_right _ ?_))
  refine List.mem_append_left _ (List.mem_append_right _ ?_)
  exact List.mem_flatMap.mpr ⟨callee, called, member⟩

theorem isBasic_of_member {node : ArenaExpr} (inBody : node ∈ body.exprs.toList) {member : Member}
    (named : member ∈ node.kind.members) : member.ty.isBasic = true := by
  refine types _ (mem_types_of_expr inBody (List.mem_append_right _ ?_))
  exact List.mem_append_left _ (List.mem_append_left _ (List.mem_map_of_mem named))

/-- In a body of basic types every variable has one. -/
theorem isBasic_of_local {id : LocalId} {source : Variable}
    (found : body.localVar? id = some source) : source.ty.isBasic = true := by
  obtain ⟨declared, atId, rfl⟩ := Option.map_eq_some_iff.mp found
  refine types _ (List.mem_cons_of_mem _ (List.mem_append_left _ (List.mem_append_left _ ?_)))
  refine List.mem_append_right _ (List.mem_map_of_mem ?_)
  exact Array.mem_toList_iff.mpr (Array.mem_of_getElem? atId)

/-- The layout of a body covers its variables. -/
theorem coversVariable_of_types (memberState : String → FlowState) {id : LocalId}
    {source : Variable} (found : body.localVar? id = some source) :
    (body.layout memberState).coversVariable source = true := by
  have basic := isBasic_of_local types found
  obtain ⟨declared, atId, rfl⟩ := Option.map_eq_some_iff.mp found
  have state : body.declaredState id = declared.ty.declaredState := by
    rw [declaredState, found]
  simp only [Layout.coversVariable, Bool.and_eq_true, beq_iff_eq]
  exact ⟨Ty.isFlat_of_basic basic, state⟩

end Types

/-- All members of a name have the state that the layout gives to the name. -/
theorem Flat.coversMember (flat : body.Flat) {node : ArenaExpr}
    (inBody : node ∈ body.exprs.toList) {member : Member} (named : member ∈ node.kind.members) :
    (body.layout body.memberState).coversMember member = true := by
  have basic := isBasic_of_member flat.types inBody named
  have inMembers : member ∈ body.members := List.mem_flatMap.mpr ⟨node, inBody, named⟩
  have state : body.memberState member.name = member.ty.declaredState := by
    rw [memberState]
    cases found : body.members.find? fun other => other.name == member.name with
    | none =>
        have other := List.find?_eq_none.mp found member inMembers
        simp at other
    | some other =>
        have sameName : other.name = member.name := by simpa using List.find?_some found
        exact congrArg Ty.declaredState
          (flat.members other (List.mem_of_find?_eq_some found) member inMembers sameName)
  simp only [Layout.coversMember, Bool.and_eq_true, beq_iff_eq]
  exact ⟨⟨Ty.isFlat_of_basic basic, Ty.isClosed_of_basic basic⟩, state⟩

end Covers

section Forest

variable {memberState : String → FlowState} {lenient : Bool}

/-- The outline of the tree of an expression says what the body says of the expression. -/
structure Outlines (body : Body) (layout : Layout) (lenient : Bool) (id : ExprId) (tree : Expr) :
    Prop where
  flat : (tree.outline layout lenient).flat = true
  tracked : body.Denotes id → (tree.outline layout lenient).tracked = true
  settled : (lenient = false → body.Anchored id) → (tree.outline layout lenient).settled = true

/-- Declarations declare places of the layout, and all expressions are flat. -/
def FlatCode (layout : Layout) (lenient : Bool) (code : Code) : Prop :=
  Code.MadeOf (fun target => layout.coversVariable target = true)
    (fun part => (part.outline layout lenient).flat = true) code

/-- Code with flat leaves and expressions is flat. -/
theorem FlatCode.isFlat {layout : Layout} {code : Code} (flat : FlatCode layout lenient code) :
    code.isFlat layout lenient = true := by
  rw [Code.isFlat, Outline.flatCode, leaves_foldStmt, allExprs_foldStmt, List.all_map,
    List.all_map, Bool.and_eq_true, List.all_eq_true, List.all_eq_true]
  refine ⟨fun leaf member => ?_, fun expr member => flat.allExprs expr member⟩
  have covered := flat.leaves leaf member
  cases leaf with
  | declare target value? => exact covered.1
  | evaluate value => rfl

variable {layout : Layout} {forest : Forest}
  (known : forest.All (body.Outlines layout lenient) (FlatCode layout lenient))
include known

/-- An expression that denotes a place has a tree that does. -/
theorem tracked_exprOver? {id : ExprId} {tree : Expr}
    (made : body.exprOver? forest id = some tree) (denotes : body.Denotes id) :
    (tree.outline layout lenient).tracked = true := by
  obtain ⟨expr, kind, atId, isKind, rfl⟩ := of_exprOver? made
  have resolved : ∀ {other : ExprKind LocalId ExprId StmtId}, body.kind? id = some other →
      other.resolve body.localVar? forest.expr? forest.code? = some kind := by
    intro other found
    rw [kind?, atId, Option.map_some] at found
    exact Option.some.inj found ▸ isKind
  cases denotes with
  | read found =>
      obtain ⟨source, _, same⟩ := Option.bind_eq_some_iff.mp (resolved found)
      obtain rfl : _ = kind := Option.some.inj same
      rfl
  | this found =>
      obtain rfl : _ = kind := Option.some.inj (resolved found)
      rfl
  | cast found inner =>
      obtain ⟨operand, isOperand, same⟩ := Option.bind_eq_some_iff.mp (resolved found)
      obtain rfl : _ = kind := Option.some.inj same
      exact (known.exprs _ operand isOperand).tracked inner
  | suppress found inner =>
      obtain ⟨operand, isOperand, same⟩ := Option.bind_eq_some_iff.mp (resolved found)
      obtain rfl : _ = kind := Option.some.inj same
      exact (known.exprs _ operand isOperand).tracked inner
  | member found inner =>
      obtain ⟨receiver?, isReceiver, same⟩ := Option.bind_eq_some_iff.mp (resolved found)
      obtain rfl : _ = kind := Option.some.inj same
      obtain ⟨receiver, isTree, rfl⟩ := Option.map_eq_some_iff.mp isReceiver
      exact (known.exprs _ receiver isTree).tracked inner
  | assign found inner =>
      obtain ⟨target, isTarget, others⟩ := Option.bind_eq_some_iff.mp (resolved found)
      obtain ⟨value, _, same⟩ := Option.bind_eq_some_iff.mp others
      obtain rfl : _ = kind := Option.some.inj same
      exact (known.exprs _ target isTarget).tracked inner

/-- A member of an object in a tracked place has a tree that is one. -/
theorem settled_exprOver? {id : ExprId} {tree : Expr}
    (made : body.exprOver? forest id = some tree) (anchored : lenient = false → body.Anchored id) :
    (tree.outline layout lenient).settled = true := by
  obtain ⟨expr, kind, atId, isKind, rfl⟩ := of_exprOver? made
  cases lenient with
  | true => rfl
  | false =>
      change Outline.settledKind (foldKind (Outline.ofNode layout false) kind) = true
      by_cases isMember : ∃ receiver selected, kind = .member (some receiver) selected
      · obtain ⟨receiver, selected, rfl⟩ := isMember
        obtain ⟨number, isNumber, isTree⟩ := ExprKind.resolve_member isKind
        have found : body.kind? id = some (.member (some number) selected) := by
          rw [kind?, atId, Option.map_some, isNumber]
        exact (known.exprs number receiver isTree).tracked (anchored rfl number selected found)
      · exact settledKind_fold fun receiver selected same => isMember ⟨receiver, selected, same⟩

variable (flat : body.Flat) (writes : lenient = false → body.WritesTracked)
  (isLayout : layout = body.layout body.memberState)
include flat isLayout

omit known in
theorem flat_coversVariable (id : LocalId) (source : Variable)
    (found : body.localVar? id = some source) : layout.coversVariable source = true :=
  isLayout ▸ coversVariable_of_types flat.types _ found

/-- The tree of a statement is flat if the trees of its parts are. -/
theorem flat_codeOver? {id : StmtId} {tree : Code} (made : body.codeOver? forest id = some tree) :
    FlatCode layout lenient tree :=
  codeOver?_madeOf (flat_coversVariable flat isLayout)
    (fun id tree found => (known.exprs id tree found).flat) known.codes made

include writes

/-- The tree of an expression is flat if the trees of its parts are. -/
theorem flat_exprOver? {id : ExprId} {tree : Expr}
    (made : body.exprOver? forest id = some tree) : (tree.outline layout lenient).flat = true := by
  obtain ⟨expr, kind, atId, isKind, rfl⟩ := of_exprOver? made
  have inBody : expr ∈ body.exprs.toList :=
    Array.mem_toList_iff.mpr (Array.mem_of_getElem? atId)
  obtain ⟨members, callees, isArray, isLambda⟩ := ExprKind.resolve_names isKind
  refine outline_flat (flatType_of_types flat.types inBody) (isArray.trans (flat.noArray expr inBody))
    (isLambda.trans (flat.noLambda expr inBody)) ?_ ?_ ?_ ?_ ?_
  · rintro source rfl
    obtain ⟨number, found⟩ := ExprKind.resolve_read isKind
    exact flat_coversVariable flat isLayout _ _ found
  · intro member named
    exact isLayout ▸ flat.coversMember inBody (members ▸ named)
  · intro callee called
    exact isBasic_of_callee flat.types inBody (callees ▸ called) List.mem_cons_self
  · rintro target value rfl
    obtain ⟨number, other, isNumber, isTree⟩ := ExprKind.resolve_assign isKind
    refine (known.exprs number target isTree).settled fun strict => ?_
    exact writes strict id number other (by rw [kind?, atId, Option.map_some, isNumber])
  · intro child member
    obtain ⟨number, _, found⟩ := ExprKind.resolve_children isKind child member
    exact (known.exprs number child found).flat

end Forest

/-- The code of a flat body is flat. It is strictly so if members are assigned through tracked
places alone. -/
theorem Flat.method_isFlat (flat : body.Flat) {lenient : Bool}
    (writes : lenient = false → body.WritesTracked) {method : Method}
    (found : body.method? = some method) :
    method.isFlat (body.layout body.memberState) lenient = true := by
  have all : body.forest.All (body.Outlines (body.layout body.memberState) lenient)
      (FlatCode (body.layout body.memberState) lenient) :=
    forest_all
      (fun _ known _ _ made => ⟨flat_exprOver? known flat writes rfl made,
        tracked_exprOver? known made, settled_exprOver? known made⟩)
      (fun _ known _ _ made => flat_codeOver? known flat rfl made)
  obtain ⟨isCode, sameThis⟩ := code_of_method? found
  refine Bool.and_eq_true_iff.mpr ⟨?_, (all.codes _ _ isCode).isFlat⟩
  rw [sameThis, Option.all_eq_true]
  exact fun ty isThis => Ty.isFlat_of_basic (flat.types ty (mem_types_of_this isThis))

end Body

end NullFlow
