import NullFlow.Proofs.Body.Flatness
import NullFlow.Proofs.Runtime.Entries
/-!
Plain bodies: their code has locals, constants, conversions, calls, choices, tests and assignments to
locals only, and all types are without inner positions. The analysis attends everything that such
code does when it runs.
-/

namespace NullFlow

namespace ExprKind

variable {Var Child Code Var' Child' Code' : Type} {var : Var → Option Var'}
  {child : Child → Option Child'} {code : Code → Option Code'}
  {kind : ExprKind Var Child Code} {made : ExprKind Var' Child' Code'}

/-- The tree of a plain expression is plain. -/
theorem resolve_plain (resolved : kind.resolve var child code = some made)
    (plain : kind.isPlain = true) : made.isPlain = true := by
  cases kind with
  | create constructor? arguments initializers =>
      obtain ⟨rfl, rfl⟩ := of_plain_create plain
      obtain rfl : _ = made := Option.some.inj resolved
      rfl
  | _ =>
      -- No other expression is plain by what its parts are.
      simp only [resolve, Option.pure_def, Option.bind_eq_bind, Option.bind_eq_some_iff,
        Option.some.injEq] at resolved
      grind [isPlain]

/-- The tree of the receiver of a call. -/
theorem resolve_call {receiver : Child'} {method : Signature} {arguments : List (Argument Child')}
    (resolved : kind.resolve var child code = some (.call (some receiver) method arguments)) :
    ∃ number others, kind = .call (some number) method others ∧ child number = some receiver := by
  cases kind with
  | call receiver? other values =>
      obtain ⟨made?, isMade, rest⟩ := Option.bind_eq_some_iff.mp resolved
      obtain ⟨_, _, same⟩ := Option.bind_eq_some_iff.mp rest
      obtain ⟨rfl, rfl, _⟩ := ExprKind.call.inj (Option.some.inj same)
      cases receiver? with
      | none => cases isMade
      | some number =>
          obtain ⟨made, isTree, same⟩ := Option.map_eq_some_iff.mp isMade
          obtain rfl := Option.some.inj same
          exact ⟨number, values, rfl, isTree⟩
  | _ => simp [resolve, Option.bind_eq_some_iff] at resolved

/-- The tree of the right operand of an operator. -/
theorem resolve_binary {operator : BinaryOp} {left right : Child'}
    (resolved : kind.resolve var child code = some (.binary operator left right)) :
    ∃ first second, kind = .binary operator first second ∧ child second = some right := by
  cases kind with
  | binary actual first second =>
      obtain ⟨_, _, rest⟩ := Option.bind_eq_some_iff.mp resolved
      obtain ⟨made, isMade, same⟩ := Option.bind_eq_some_iff.mp rest
      obtain ⟨rfl, _, rfl⟩ := ExprKind.binary.inj (Option.some.inj same)
      exact ⟨first, second, rfl, isMade⟩
  | _ => simp [resolve, Option.bind_eq_some_iff] at resolved

/-- Plain expressions name no members, and they make no arrays and no lambdas. -/
theorem of_plain (plain : kind.isPlain = true) :
    kind.members = [] ∧ kind.isArray = false ∧ kind.isLambda = false := by
  cases kind with
  | create constructor? arguments initializers =>
      obtain ⟨_, rfl⟩ := of_plain_create plain
      exact ⟨rfl, rfl, rfl⟩
  | member => cases plain
  | array => cases plain
  | lambda => cases plain
  | _ => exact ⟨rfl, rfl, rfl⟩

end ExprKind

section Receivers

variable {context : Context} {ty? : Option Ty} {span : Span}

theorem Ty.isNamed_withState {ty : Ty} (named : ty.isNamed = true) (state : FlowState) :
    (ty.withState state).isNamed = true := by
  cases ty with
  | named name arguments mark => rfl
  | _ => cases named

/-- A local of a named type has a value of such a type. -/
theorem read_named {source : Variable} (named : source.ty.isNamed = true) :
    ((Expr.node ⟨.read source, ty?, span⟩).meaning context).IsNamed := by
  intro session store reachable
  change ((Meaning.guardValue (readRule source) store session).1).1.ty?.any Ty.isNamed = true
  rw [Meaning.guardValue, if_pos reachable]
  cases isTy : source.ty with
  | named name arguments mark =>
      rw [readRule, isTy]
      rfl
  | _ =>
      rw [isTy] at named
      cases named

/-- A cast to a named type has a value of the type. -/
theorem cast_named {operand : Expr} {ty : Ty} (named : ty.isNamed = true) :
    ((Expr.node ⟨.cast operand, some ty, span⟩).meaning context).IsNamed := by
  intro session store reachable
  change ((Meaning.guardValue (castRule (some ty) (.mk fun _ => operand.meaning context)) store
    session).1).1.ty?.any Ty.isNamed = true
  rw [Meaning.guardValue, if_pos reachable]
  exact Ty.isNamed_withState named _

end Receivers

/-- The analysis keeps the type of a plain expression, which is no `dynamic`. -/
theorem static_of_plain {context : Context} {node : Node Variable Expr Code}
    (isPlain : node.kind.isPlain = true) (basic : node.ty?.all Ty.isBasic = true) :
    ((Expr.node node).meaning context).ty?.any Ty.isDynamic = false := by
  obtain ⟨kind, ty?, span⟩ := node
  have keeps : ((Expr.node ⟨kind, ty?, span⟩).meaning context).ty? = ty? := by
    cases kind with
    | binary operator left right => cases operator <;> rfl
    | unary operator operand => cases operator <;> rfl
    | read => rfl
    | literal => rfl
    | defaultValue => rfl
    | cast => rfl
    | call => rfl
    | create => rfl
    | conditional => rfl
    | coalesce => rfl
    | test => rfl
    | assign => rfl
    | _ => cases isPlain
  rw [keeps]
  cases ty? with
  | none => rfl
  | some ty => cases ty <;> first | rfl | cases basic

namespace Body

section Definitions

variable (body : Body)

/-- The expression is a local of a named type, possibly under casts to named types. -/
inductive Refers : ExprId → Prop where
  | read {id : ExprId} {source : LocalId} {declared : Local}
      (found : body.kind? id = some (.read source)) (isLocal : body.locals[source]? = some declared)
      (named : declared.ty.isNamed = true) : Refers id
  | cast {id operand : ExprId} {ty : Ty} {span : Span}
      (found : body.exprs[id]? = some ⟨.cast operand, some ty, span⟩) (named : ty.isNamed = true)
      (inner : Refers operand) : Refers id

/-- The expression is an assignment, or there is one inside it. -/
inductive Assigns : ExprId → Prop where
  | here {id target value : ExprId} (found : body.kind? id = some (.assign target value)) : Assigns id
  | inside {id part : ExprId} {kind : ExprKind LocalId ExprId StmtId}
      (found : body.kind? id = some kind) (isPart : part ∈ kind.children) (inner : Assigns part) :
      Assigns id

/-- What the expressions of the body are, in the order of the arena. -/
def kinds : List (ExprKind LocalId ExprId StmtId) := body.exprs.toList.map Node.kind

/-- All expressions are plain, and no type has inner positions. A receiver is a local of a named
type, possibly under casts, and the target of an assignment is a local. The right side of a test for
equality assigns nothing. -/
structure Plain : Prop where
  types : ∀ ty ∈ body.types, ty.isBasic = true
  kinds : ∀ kind ∈ body.kinds, kind.isPlain = true
  receivers : ∀ receiver method arguments,
    .call (some receiver) method arguments ∈ body.kinds → body.Refers receiver
  targets : ∀ target value, .assign target value ∈ body.kinds →
    ∃ source, body.kind? target = some (.read source)
  comparisons : ∀ operator left right, .binary operator left right ∈ body.kinds →
    operator = .equal ∨ operator = .notEqual → ¬ body.Assigns right

end Definitions

variable {body : Body} {layout : Layout} {context : Context}

/-- What is known of the tree of an expression of a plain body. -/
structure Sounds (body : Body) (layout : Layout) (context : Context) (id : ExprId) (tree : Expr) :
    Prop where
  flat : (tree.outline layout false).flat = true
  settled : (tree.outline layout false).settled = true
  sound : tree.Sound layout context
  static : (tree.meaning context).ty?.any Ty.isDynamic = false
  named : body.Refers id → (tree.meaning context).IsNamed
  frames : ¬ body.Assigns id → tree.behaviour.Frames
  source : ∀ number, body.kind? id = some (.read number) → ∃ source : Variable,
    layout.coversVariable source = true ∧ (tree.meaning context).target = variableTarget source ∧
      tree.behaviour.source? = some source

section Trees

variable {forest : Forest} {ofCode : Code → Prop} {id : ExprId} {node : ArenaExpr}
  {kind : ExprKind Variable Expr Code} (atId : body.exprs[id]? = some node)
  (isKind : node.kind.resolve body.localVar? forest.expr? forest.code? = some kind)
include atId isKind

/-- A receiver has a value of a named type. -/
theorem named_of_refers (refers : body.Refers id) :
    ((Expr.node ⟨kind, node.ty?, node.span⟩).meaning context).IsNamed := by
  cases refers with
  | read found isLocal named =>
      rw [kind?, atId] at found
      rw [Option.some.inj found] at isKind
      obtain ⟨target, isTarget, same⟩ := Option.bind_eq_some_iff.mp isKind
      obtain rfl : _ = kind := Option.some.inj same
      rw [localVar?, isLocal] at isTarget
      obtain rfl := Option.some.inj isTarget
      exact read_named named
  | cast found named inner =>
      obtain rfl := Option.some.inj (atId.symm.trans found)
      obtain ⟨operand, _, same⟩ := Option.bind_eq_some_iff.mp isKind
      obtain rfl : _ = kind := Option.some.inj same
      exact cast_named named

/-- The tree of a local of the body. -/
theorem source_of_read (covers : ∀ id source, body.localVar? id = some source →
      layout.coversVariable source = true) {number : LocalId}
    (found : body.kind? id = some (.read number)) : ∃ source : Variable,
      layout.coversVariable source = true ∧
        ((Expr.node ⟨kind, node.ty?, node.span⟩).meaning context).target = variableTarget source ∧
        (Expr.node ⟨kind, node.ty?, node.span⟩).behaviour.source? = some source := by
  rw [kind?, atId] at found
  rw [Option.some.inj found] at isKind
  obtain ⟨source, isSource, same⟩ := Option.bind_eq_some_iff.mp isKind
  obtain rfl : _ = kind := Option.some.inj same
  exact ⟨source, covers number source isSource, rfl, rfl⟩

variable (known : forest.All (body.Sounds layout context) ofCode)
include known

/-- An expression without an assignment changes no local. -/
theorem frames_of_not_assigns (isPlain : kind.isPlain = true) (none : ¬ body.Assigns id) :
    (Expr.node ⟨kind, node.ty?, node.span⟩).behaviour.Frames := by
  have inArena : body.kind? id = some node.kind := by rw [kind?, atId, Option.map_some]
  refine node_frames isPlain (fun target value isAssign => ?_) fun child member => ?_
  · obtain rfl : kind = .assign target value := isAssign
    obtain ⟨number, other, isNumber, _⟩ := ExprKind.resolve_assign isKind
    exact none (.here (inArena.trans (congrArg some isNumber)))
  · obtain ⟨number, isPart, found⟩ := ExprKind.resolve_children isKind child member
    exact (known.exprs number child found).frames fun assigns => none (.inside inArena isPart assigns)

variable (plain : body.Plain)
  (covers : ∀ id source, body.localVar? id = some source → layout.coversVariable source = true)
include plain covers

/-- The tree of a plain expression is flat. -/
theorem flat_of_plain : ((Expr.node ⟨kind, node.ty?, node.span⟩).outline layout false).flat = true := by
  have inBody : node ∈ body.exprs.toList := Array.mem_toList_iff.mpr (Array.mem_of_getElem? atId)
  have isPlain := ExprKind.resolve_plain isKind (plain.kinds _ (List.mem_map_of_mem inBody))
  obtain ⟨noMembers, noArray, noLambda⟩ := ExprKind.of_plain isPlain
  obtain ⟨_, callees, _, _⟩ := ExprKind.resolve_names isKind
  refine outline_flat (flatType_of_types plain.types inBody) noArray noLambda ?_ ?_ ?_ ?_ ?_
  · rintro source rfl
    obtain ⟨number, found⟩ := ExprKind.resolve_read isKind
    exact covers number source found
  · intro member named
    rw [show (Node.mk kind node.ty? node.span).kind.members = [] from noMembers] at named
    cases named
  · intro callee called
    exact isBasic_of_callee plain.types inBody (callees ▸ called) List.mem_cons_self
  · rintro target value rfl
    obtain ⟨number, other, _, isTree⟩ := ExprKind.resolve_assign isKind
    exact (known.exprs number target isTree).settled
  · intro child member
    obtain ⟨number, _, found⟩ := ExprKind.resolve_children isKind child member
    exact (known.exprs number child found).flat

/-- The analysis attends a plain expression if it attends the parts. -/
theorem sound_of_plain (flatThis : context.thisType?.all Ty.isFlat = true) :
    (Expr.node ⟨kind, node.ty?, node.span⟩).Sound layout context := by
  have inBody : node ∈ body.exprs.toList := Array.mem_toList_iff.mpr (Array.mem_of_getElem? atId)
  have inKinds : ∀ {other}, node.kind = other → other ∈ body.kinds := fun same =>
    same ▸ List.mem_map_of_mem inBody
  have parts : ∀ child ∈ kind.children, ∃ number, body.Sounds layout context number child := by
    intro child member
    obtain ⟨number, _, found⟩ := ExprKind.resolve_children isKind child member
    exact ⟨number, known.exprs number child found⟩
  refine node_sound (ExprKind.resolve_plain isKind (plain.kinds _ (List.mem_map_of_mem inBody))) flatThis
    (flat_of_plain atId isKind known plain covers) (fun child member => ?_) (fun child member => ?_)
    ?_ ?_ ?_
  · obtain ⟨_, sounds⟩ := parts child member
    exact sounds.sound
  · obtain ⟨_, sounds⟩ := parts child member
    exact sounds.static
  · rintro receiver method arguments rfl
    obtain ⟨number, others, isCall, found⟩ := ExprKind.resolve_call isKind
    exact (known.exprs number receiver found).named
      (plain.receivers number method others (inKinds isCall))
  · rintro target value rfl
    obtain ⟨number, other, isAssign, found⟩ := ExprKind.resolve_assign isKind
    obtain ⟨source, isRead⟩ := plain.targets number other (inKinds isAssign)
    exact (known.exprs number target found).source source isRead
  · rintro operator left right rfl isEquality
    obtain ⟨first, second, isBinary, found⟩ := ExprKind.resolve_binary isKind
    exact (known.exprs second right found).frames
      (plain.comparisons operator first second (inKinds isBinary) isEquality)

/-- All that is known of the parts of a plain expression is known of the expression. -/
theorem sounds_exprOver? (flatThis : context.thisType?.all Ty.isFlat = true) :
    body.Sounds layout context id (.node ⟨kind, node.ty?, node.span⟩) := by
  have inBody : node ∈ body.exprs.toList := Array.mem_toList_iff.mpr (Array.mem_of_getElem? atId)
  have isPlain := ExprKind.resolve_plain isKind (plain.kinds _ (List.mem_map_of_mem inBody))
  constructor
  case flat => exact flat_of_plain atId isKind known plain covers
  case settled =>
    refine settledKind_fold fun receiver selected same => ?_
    rw [same] at isPlain
    cases isPlain
  case sound => exact sound_of_plain atId isKind known plain covers flatThis
  case static => exact static_of_plain isPlain (isBasic_of_expr plain.types inBody)
  case named => exact named_of_refers atId isKind
  case frames => exact frames_of_not_assigns atId isKind known isPlain
  case source => exact fun number found => source_of_read atId isKind covers found

end Trees

/-- The code of a plain body is flat, and the analysis attends all of it. -/
theorem Plain.sound (plain : body.Plain) {method : Method} (found : body.method? = some method)
    (memberState : String → FlowState) (classes : ClassTable) (options : Options) :
    method.isFlat (body.layout memberState) false = true ∧
      Code.Sound (body.layout memberState) (method.context classes options false) method.code := by
  obtain ⟨isCode, sameThis⟩ := code_of_method? found
  have covers : ∀ id source, body.localVar? id = some source →
      (body.layout memberState).coversVariable source = true :=
    fun _ _ => coversVariable_of_types plain.types memberState
  have flatThis : method.thisType?.all Ty.isFlat = true := by
    rw [sameThis, Option.all_eq_true]
    exact fun ty isThis => Ty.isFlat_of_basic (plain.types ty (mem_types_of_this isThis))
  have all : body.forest.All
      (body.Sounds (body.layout memberState) (method.context classes options false))
      (Code.MadeOf (fun target => (body.layout memberState).coversVariable target = true)
        fun part => ∃ id, body.Sounds (body.layout memberState)
          (method.context classes options false) id part) := by
    refine forest_all (fun forest known id tree made => ?_) fun forest known id tree made => ?_
    · obtain ⟨node, kind, atId, isKind, rfl⟩ := of_exprOver? made
      exact sounds_exprOver? atId isKind known plain covers flatThis
    · exact codeOver?_madeOf covers (fun id tree found => ⟨id, known.exprs id tree found⟩)
        known.codes made
  have made := all.codes _ _ isCode
  have flat : FlatCode (body.layout memberState) false method.code :=
    made.mono fun _ ⟨_, sounds⟩ => sounds.flat
  exact ⟨Bool.and_eq_true_iff.mpr ⟨flatThis, flat.isFlat⟩, made.mono fun _ ⟨_, sounds⟩ => sounds.sound⟩

end Body
end NullFlow
