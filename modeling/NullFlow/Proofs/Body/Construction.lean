import NullFlow.Body.Draft
import NullFlow.Proofs.Body.Verdicts
/-!
Bodies that were drafted. A draft returns the number of everything that it adds, and a new node stores
numbers that were returned before. So no node leads back to itself, and only the nesting of a drafted
body can be at fault.
-/

namespace NullFlow

namespace Body

/-- The parent stores the number of the child. -/
def PointsTo (body : Body) (parent child : NodeId) : Prop := body.NodeStores parent child.reference

/-- The numbers of the parameters and in the nodes point into their arenas, and no node leads back to
itself. This includes the nodes outside the root. -/
structure Sound (body : Body) : Prop where
  parameter : ∀ id ∈ body.parameters, body.covers (.localVar id) = true
  stored : ∀ node reference, body.NodeStores node reference → body.covers reference = true
  acyclic : ∀ node, ¬Relation.TransGen body.PointsTo node node

/-- The later body has more in its arenas, and a new node stores only numbers that pointed into the
arenas before it. -/
structure Grows (earlier later : Body) : Prop where
  covered : ∀ reference, earlier.covers reference = true → later.covers reference = true
  parameter : ∀ id ∈ later.parameters,
    id ∈ earlier.parameters ∨ later.covers (.localVar id) = true
  stored : ∀ node reference, later.NodeStores node reference →
    earlier.NodeStores node reference ∨
      (earlier.covers node.reference = false ∧ earlier.covers reference = true)

section Growth

variable {earlier later : Body}

/-- Old nodes stay as they are. -/
theorem Grows.points_earlier (grows : earlier.Grows later) {parent child : NodeId}
    (old : earlier.covers parent.reference = true) (points : later.PointsTo parent child) :
    earlier.PointsTo parent child := by
  rcases grows.stored parent child.reference points with stores | ⟨isNew, -⟩
  · exact stores
  · rw [old] at isNew
    cases isNew

variable (sound : earlier.Sound) (grows : earlier.Grows later)

include sound grows

/-- What a node of a drafted body stores was there before the node. -/
theorem Sound.covers_stored {node : NodeId} {reference : Reference}
    (stores : later.NodeStores node reference) : earlier.covers reference = true := by
  rcases grows.stored node reference stores with old | ⟨-, covered⟩
  · exact sound.stored node reference old
  · exact covered

/-- What a node of a drafted body leads to was there before the node. -/
theorem Sound.covers_target {outer inner : NodeId}
    (leads : Relation.TransGen later.PointsTo outer inner) : earlier.covers inner.reference = true := by
  cases leads with
  | single points => exact sound.covers_stored grows points
  | tail before points => exact sound.covers_stored grows points

/-- A way from an old node goes through old nodes only. -/
theorem Sound.leads_earlier {outer inner : NodeId} (old : earlier.covers outer.reference = true)
    (leads : Relation.TransGen later.PointsTo outer inner) :
    Relation.TransGen earlier.PointsTo outer inner := by
  induction leads with
  | single points => exact .single (grows.points_earlier old points)
  | tail before points ih =>
      exact ih.tail (grows.points_earlier (sound.covers_target grows before) points)

/-- A cycle would consist of old nodes, because each of its nodes is stored in another. -/
theorem Sound.grow : later.Sound where
  parameter id listed := by
    rcases grows.parameter id listed with old | covered
    · exact grows.covered _ (sound.parameter id old)
    · exact covered
  stored node reference stores := grows.covered _ (sound.covers_stored grows stores)
  acyclic node cycle :=
    sound.acyclic node (sound.leads_earlier grows (sound.covers_target grows cycle) cycle)

end Growth

section Additions

variable {body : Body}

/-- A larger body covers what a smaller one does. -/
theorem covers_mono {earlier later : Body} (exprs : earlier.exprs.size ≤ later.exprs.size)
    (stmts : earlier.stmts.size ≤ later.stmts.size)
    (locals : earlier.locals.size ≤ later.locals.size) (reference : Reference)
    (covered : earlier.covers reference = true) : later.covers reference = true := by
  cases reference with
  | expr id => exact decide_eq_true (Nat.lt_of_lt_of_le (of_decide_eq_true covered) exprs)
  | stmt id => exact decide_eq_true (Nat.lt_of_lt_of_le (of_decide_eq_true covered) stmts)
  | localVar id => exact decide_eq_true (Nat.lt_of_lt_of_le (of_decide_eq_true covered) locals)

/-- What a node stores depends on the arenas of the nodes only. -/
theorem NodeStores.transfer {earlier later : Body} {node : NodeId} {reference : Reference}
    (stores : later.NodeStores node reference) (exprs : later.exprs = earlier.exprs)
    (stmts : later.stmts = earlier.stmts) : earlier.NodeStores node reference := by
  cases stores with
  | expr found stores => exact .expr (exprs ▸ found) stores
  | stmt found stores => exact .stmt (stmts ▸ found) stores

theorem size_lt_push {Item : Type} {arena : Array Item} (item : Item) :
    arena.size < (arena.push item).size := by
  rw [Array.size_push]
  exact Nat.lt_succ_self _

/-- An arena that was pushed to holds its old items and the new one. -/
theorem found_push {Item : Type} {arena : Array Item} {pushed item : Item} {id : Nat}
    (found : (arena.push pushed)[id]? = some item) :
    arena[id]? = some item ∨ (id = arena.size ∧ item = pushed) := by
  rw [Array.getElem?_push] at found
  split at found
  · exact Or.inr ⟨‹_›, (Option.some.inj found).symm⟩
  · exact Or.inl found

theorem grows_heading (span? : Option Span) (thisType? : Option Ty) (returnType : Ty) :
    body.Grows { body with span?, thisType?, returnType } where
  covered := covers_mono (Nat.le_refl _) (Nat.le_refl _) (Nat.le_refl _)
  parameter _ listed := Or.inl listed
  stored _ _ stores := Or.inl (stores.transfer rfl rfl)

theorem grows_pushLocal (declared : Local) {parameters : List LocalId}
    (added : ∀ id ∈ parameters, id ∈ body.parameters ∨ id = body.locals.size) :
    body.Grows { body with parameters, locals := body.locals.push declared } where
  covered := covers_mono (Nat.le_refl _) (Nat.le_refl _) (Nat.le_of_lt (size_lt_push declared))
  parameter id listed := by
    rcases added id listed with old | rfl
    · exact Or.inl old
    · exact Or.inr (decide_eq_true (size_lt_push declared))
  stored _ _ stores := Or.inl (stores.transfer rfl rfl)

theorem grows_pushExpr {expr : ArenaExpr}
    (known : ∀ reference, expr.kind.Stores reference → body.covers reference = true) :
    body.Grows { body with exprs := body.exprs.push expr } where
  covered := covers_mono (Nat.le_of_lt (size_lt_push expr)) (Nat.le_refl _) (Nat.le_refl _)
  parameter _ listed := Or.inl listed
  stored node reference stores := by
    cases stores with
    | expr found stores =>
        rcases found_push found with old | ⟨rfl, rfl⟩
        · exact Or.inl (.expr old stores)
        · exact Or.inr ⟨decide_eq_false (Nat.lt_irrefl _), known reference stores⟩
    | stmt found stores => exact Or.inl (.stmt found stores)

theorem grows_pushStmt {stmt : Statement}
    (known : ∀ reference, stmt.kind.Stores reference → body.covers reference = true) :
    body.Grows { body with stmts := body.stmts.push stmt } where
  covered := covers_mono (Nat.le_refl _) (Nat.le_of_lt (size_lt_push stmt)) (Nat.le_refl _)
  parameter _ listed := Or.inl listed
  stored node reference stores := by
    cases stores with
    | expr found stores => exact Or.inl (.expr found stores)
    | stmt found stores =>
        rcases found_push found with old | ⟨rfl, rfl⟩
        · exact Or.inl (.stmt old stores)
        · exact Or.inr ⟨decide_eq_false (Nat.lt_irrefl _), known reference stores⟩

/-- Only the nesting of a sound body can be at fault. -/
theorem Sound.rejected (sound : body.Sound) (hasRoot : body.covers (.stmt body.root) = true)
    {defect : Defect} (rejected : body.validate = .error defect) :
    ∃ node around, defect = .tooDeep node ∧ body.Path (node :: around) ∧
      maxNesting < (node :: around).length := by
  have exhibits := validate_error rejected
  cases defect with
  | outOfRange reference =>
      obtain ⟨stores, outside⟩ := exhibits
      have inside : body.covers reference = true := by
        cases stores with
        | root => exact hasRoot
        | parameter listed => exact sound.parameter _ listed
        | inside stores => exact sound.stored _ _ stores
      rw [inside] at outside
      cases outside
  | containsItself node =>
      exact absurd (exhibits.2.lift id fun _ _ contains => contains.stores) (sound.acyclic node)
  | tooDeep node =>
      obtain ⟨around, path, -, length⟩ := exhibits
      exact ⟨node, around, rfl, path, by omega⟩

end Additions

end Body

/-- A call that changes a draft. -/
inductive DraftCall where
  | setFile (file : String)
  | setReturnType (returnType : Ty)
  | setThisType (thisType : Ty)
  | moveTo (line column : Nat)
  | declare (declared : Local)
  | parameter (name : String) (ty : Ty)
  | exprOf (kind : ExprKind LocalId ExprId StmtId) (ty? : Option Ty)
  | expr (kind : ExprKind LocalId ExprId StmtId)
  | stmt (kind : StmtKind)

namespace DraftCall

/-- Makes the call. It returns the number of what it adds. -/
def run : DraftCall → StateM BodyDraft (Option Reference)
  | setFile file => do
      BodyDraft.setFile file
      return none
  | setReturnType returnType => do
      BodyDraft.setReturnType returnType
      return none
  | setThisType thisType => do
      BodyDraft.setThisType thisType
      return none
  | moveTo line column => do
      BodyDraft.moveTo line column
      return none
  | declare declared => return some (.localVar (← BodyDraft.declare declared))
  | parameter name ty => return some (.localVar (← BodyDraft.parameter name ty))
  | exprOf kind ty? => return some (.expr (← BodyDraft.exprOf kind ty?))
  | expr kind => return some (.expr (← BodyDraft.expr kind))
  | stmt kind => return some (.stmt (← BodyDraft.stmt kind))

/-- The number is passed to the call, in a position of the node that it adds. -/
inductive Passes : DraftCall → Reference → Prop where
  | exprOf {kind : ExprKind LocalId ExprId StmtId} {ty? : Option Ty} {reference : Reference}
      (stores : kind.Stores reference) : Passes (.exprOf kind ty?) reference
  | expr {kind : ExprKind LocalId ExprId StmtId} {reference : Reference}
      (stores : kind.Stores reference) : Passes (.expr kind) reference
  | stmt {kind : StmtKind} {reference : Reference} (stores : kind.Stores reference) :
      Passes (.stmt kind) reference

end DraftCall

/-- What a draft has so far, as a body with the root. -/
def BodyDraft.body (draft : BodyDraft) (root : StmtId) : Body where
  name := draft.name
  span? := some (.point draft.file 1 1)
  thisType? := draft.thisType?
  parameters := draft.parameters
  returnType := draft.returnType
  locals := draft.locals
  exprs := draft.exprs
  stmts := draft.stmts
  root

/-- A draft with the numbers that its calls returned. -/
structure Drafting where
  draft : BodyDraft
  returned : List Reference

namespace Drafting

def start (name file : String) (thisType? : Option Ty) (returnType : Ty) : Drafting :=
  ⟨.start name file thisType? returnType, []⟩

def step (drafting : Drafting) (call : DraftCall) : Drafting :=
  let (returned?, draft) := call.run drafting.draft
  ⟨draft, returned?.toList ++ drafting.returned⟩

def perform (drafting : Drafting) (calls : List DraftCall) : Drafting := calls.foldl step drafting

/-- Every number that is passed to a call was returned by an earlier one. -/
def AllKnown (drafting : Drafting) : List DraftCall → Prop
  | [] => True
  | call :: calls => (∀ reference, call.Passes reference → reference ∈ drafting.returned) ∧
      (drafting.step call).AllKnown calls

/-- The draft is sound and covers what it returned. -/
structure Sound (root : StmtId) (drafting : Drafting) : Prop where
  body : (drafting.draft.body root).Sound
  returned : ∀ reference ∈ drafting.returned, (drafting.draft.body root).covers reference = true

end Drafting

section Calls

variable {root : StmtId}

/-- A call that passes known references lets the body grow. -/
theorem DraftCall.run_grows (call : DraftCall) {draft : BodyDraft}
    (known : ∀ reference, call.Passes reference → (draft.body root).covers reference = true) :
    (draft.body root).Grows ((call.run draft).2.body root) := by
  cases call with
  | setFile file => exact Body.grows_heading _ _ _
  | setReturnType returnType => exact Body.grows_heading _ _ _
  | setThisType thisType => exact Body.grows_heading _ _ _
  | moveTo line column => exact Body.grows_heading _ _ _
  | declare declared => exact Body.grows_pushLocal declared fun id listed => Or.inl listed
  | parameter name ty =>
      apply Body.grows_pushLocal ⟨name, ty, false⟩
      intro id listed
      simpa [BodyDraft.body] using List.mem_append.mp listed
  | exprOf kind ty? =>
      exact Body.grows_pushExpr fun reference stores => known reference (.exprOf stores)
  | expr kind => exact Body.grows_pushExpr fun reference stores => known reference (.expr stores)
  | stmt kind => exact Body.grows_pushStmt fun reference stores => known reference (.stmt stores)

/-- What a call returns the body covers from then on. -/
theorem DraftCall.run_covers (call : DraftCall) (draft : BodyDraft) :
    ∀ reference ∈ (call.run draft).1.toList,
      ((call.run draft).2.body root).covers reference = true := by
  intro reference member
  have returned := Option.mem_toList.mp member
  cases call with
  | setFile file => cases returned
  | setReturnType returnType => cases returned
  | setThisType thisType => cases returned
  | moveTo line column => cases returned
  | _ =>
      cases returned
      exact decide_eq_true (Body.size_lt_push _)

namespace Drafting

variable {drafting : Drafting}

/-- A draft is sound at its start. -/
theorem start_sound (name file : String) (thisType? : Option Ty) (returnType : Ty) :
    (start name file thisType? returnType).Sound root := by
  have empty : ∀ node reference,
      ¬((start name file thisType? returnType).draft.body root).NodeStores node reference := by
    intro node reference stores
    cases stores with
    | expr found => cases found
    | stmt found => cases found
  refine ⟨⟨fun id listed => ?_, fun node reference stores => ?_, fun node cycle => ?_⟩,
    fun reference listed => ?_⟩
  · cases listed
  · exact absurd stores (empty node reference)
  · cases cycle with
    | single points => exact empty _ _ points
    | tail before points => exact empty _ _ points
  · cases listed

/-- A call that passes what earlier ones returned keeps the draft sound. -/
theorem Sound.step (sound : drafting.Sound root) {call : DraftCall}
    (known : ∀ reference, call.Passes reference → reference ∈ drafting.returned) :
    (drafting.step call).Sound root := by
  have grows := call.run_grows fun reference passes => sound.returned reference (known reference passes)
  refine ⟨sound.body.grow grows, fun reference listed => ?_⟩
  rcases List.mem_append.mp listed with isNew | isOld
  · exact call.run_covers drafting.draft reference isNew
  · exact grows.covered reference (sound.returned reference isOld)

/-- A sequence of such calls keeps the draft sound. -/
theorem Sound.perform (sound : drafting.Sound root) {calls : List DraftCall}
    (known : drafting.AllKnown calls) : (drafting.perform calls).Sound root := by
  induction calls generalizing drafting with
  | nil => exact sound
  | cons call calls ih => exact ih (sound.step known.1) known.2

/-- The end of a draft is one more call, which adds the root. -/
theorem Sound.finish {stmts : List StmtId} (sound : drafting.Sound drafting.draft.stmts.size)
    (known : ∀ stmt ∈ stmts, .stmt stmt ∈ drafting.returned) :
    (drafting.draft.finish stmts).Sound ∧
      (drafting.draft.finish stmts).covers (.stmt (drafting.draft.finish stmts).root) = true := by
  have ended : (drafting.step (.stmt (.block stmts))).Sound drafting.draft.stmts.size := by
    apply sound.step
    intro reference passes
    cases passes with
    | stmt stores =>
        cases stores with
        | inBlock listed => exact known _ listed
  exact ⟨ended.body, ended.returned (.stmt drafting.draft.stmts.size) List.mem_cons_self⟩

end Drafting

/-- The check of a body rejects no draft for a number outside its arena or for a node inside itself,
provided that every number passed to the draft was returned by it. It accepts the draft, unless some
path from the root exceeds the nesting bound. -/
theorem drafted_body_verdicts (name file : String) (thisType? : Option Ty) (returnType : Ty)
    (calls : List DraftCall) (stmts : List StmtId)
    (known : (Drafting.start name file thisType? returnType).AllKnown calls)
    (ending : ∀ stmt ∈ stmts, .stmt stmt ∈
      ((Drafting.start name file thisType? returnType).perform calls).returned) :
    let body := ((Drafting.start name file thisType? returnType).perform calls).draft.finish stmts
    (∀ reference, body.validate ≠ .error (.outOfRange reference)) ∧
    (∀ node, body.validate ≠ .error (.containsItself node)) ∧
    (body.validate = .ok () ∨ ∃ path, body.Path path ∧ maxNesting < path.length) := by
  intro body
  obtain ⟨sound, hasRoot⟩ :=
    ((Drafting.start_sound name file thisType? returnType).perform known).finish ending
  refine ⟨fun reference rejected => ?_, fun node rejected => ?_, ?_⟩
  · obtain ⟨_, _, impossible, -⟩ := sound.rejected hasRoot rejected
    cases impossible
  · obtain ⟨_, _, impossible, -⟩ := sound.rejected hasRoot rejected
    cases impossible
  · cases verdict : body.validate with
    | ok result => exact Or.inl rfl
    | error defect =>
        obtain ⟨node, around, -, path, deep⟩ := sound.rejected hasRoot verdict
        exact Or.inr ⟨node :: around, path, deep⟩

section Example

/-- Lambdas of both forms, statements that stand twice in the body, and an expression that stands
nowhere. -/
def sharingCalls : List DraftCall := [
  .parameter "text" (.named "string" [] .plain),
  .expr (.read 0),
  .exprOf (.lambda [0] (.expr 0)) none,
  .stmt (.evaluate 0),
  .setFile "Shared.cs",
  .expr (.lambda [] (.block 0)),
  .expr (.literal .null),
  .expr (.binary .equal 0 0),
  .stmt (.ifElse 4 0 (some 0)),
  .moveTo 7 5,
  .stmt (.evaluate 1),
  .stmt (.evaluate 2)]

/-- Such calls may share nodes and write lambdas in both forms, and the body is accepted. -/
theorem sharingCalls_accepted :
    let start := Drafting.start "M" "Start.cs" none .void
    let ended := start.perform sharingCalls
    let body := ended.draft.finish [1, 2, 3, 0]
    start.AllKnown sharingCalls ∧ (∀ stmt ∈ [1, 2, 3, 0], .stmt stmt ∈ ended.returned) ∧
      (∀ reference, body.validate ≠ .error (.outOfRange reference)) ∧
      (∀ node, body.validate ≠ .error (.containsItself node)) ∧ body.validate = .ok () := by
  intro start ended body
  have known : start.AllKnown sharingCalls := by
    refine ⟨nofun, ?read, ?valueLambda, ?first, nofun, ?codeLambda, ?unused, ?compare, ?branch, nofun,
      ?second, ?third, trivial⟩
    case read => exact fun | _, .expr .source => by decide
    case valueLambda =>
      exact fun
        | _, .exprOf (.parameter listed) => by
          obtain rfl := List.mem_singleton.mp listed
          decide
        | _, .exprOf .lambdaValue => by decide
    case first => exact fun | _, .stmt .evaluated => by decide
    case codeLambda => exact fun | _, .expr .lambdaCode => by decide
    case unused => exact fun | _, .expr stores => nomatch stores
    case compare =>
      exact fun
        | _, .expr .binaryLeft => by decide
        | _, .expr .binaryRight => by decide
    case branch =>
      exact fun
        | _, .stmt .ifCondition => by decide
        | _, .stmt .thenBranch => by decide
        | _, .stmt .elseBranch => by decide
    case second => exact fun | _, .stmt .evaluated => by decide
    case third => exact fun | _, .stmt .evaluated => by decide
  have ending : ∀ stmt ∈ [1, 2, 3, 0], .stmt stmt ∈ ended.returned := by decide
  obtain ⟨inRange, acyclic, -⟩ :=
    drafted_body_verdicts "M" "Start.cs" none .void sharingCalls [1, 2, 3, 0] known ending
  exact ⟨known, ending, inRange, acyclic, by decide +kernel⟩

end Example

end Calls

end NullFlow
