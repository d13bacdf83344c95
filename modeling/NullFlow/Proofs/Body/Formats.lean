import NullFlow.Body.Format
import NullFlow.Proofs.Body.References
import NullFlow.Proofs.Code.Formats
/-!
The formats of method bodies. What they store are numbers of 32 bits.
-/

namespace NullFlow

open Json (Format Assures IsWord Machine.nestingLimit)

section Words

/-- An id that fits into 32 bits is read back as it was written. -/
private theorem word : Format .whole Json.natural Json.asWord IsWord := .word rfl

def Reference.number : Reference → Nat
  | .expr id => id
  | .stmt id => id
  | .localVar id => id

namespace Argument

theorem format : Format .whole toJson ofJson fun argument => IsWord argument.value where
  isPresent := nofun
  keeps fit :=
    ⟨rfl, word.keeps fit, (Format.string rfl).keeps_optional rfl fun _ _ => trivial, trivial⟩
  reads fit shallow := by
    have text : Format .whole Json.string Json.asString fun _ => True := .string rfl
    refine Json.bind_ok rfl <| Json.bind_ok (word.required "expr" rfl fit shallow) ?_
    exact Json.bind_ok (text.optional "name" rfl (fun _ _ => trivial) shallow) rfl
  assures value := by
    refine .bind .any fun record _ => ?_
    refine .bind (word.assures_required record "expr") fun expr fit => ?_
    exact .bind .any fun name? _ => .pure fit

end Argument

namespace Initializer

/-- The values are numbers of 32 bits. -/
def Fits (entry : Initializer ExprId) : Prop := ∀ ⦃value⦄, entry.Holds value → IsWord value

theorem toJsonAll_eq_map : ∀ entries : List (Initializer ExprId),
    toJsonAll entries = entries.map toJson
  | [] => rfl
  | entry :: rest => congrArg (toJson entry :: ·) (toJsonAll_eq_map rest)

/-- A nested initializer fits if every entry in it does. -/
theorem Fits.entries {member : Member} {entries : List (Initializer ExprId)}
    (fit : Fits (.nested member entries)) : ∀ entry ∈ entries, Fits entry :=
  fun _ listed _ inside => fit (.nested listed inside)

mutual

/-- The text of an initializer keeps all that a reader needs of it. -/
theorem keeps_toJson : ∀ entry : Initializer ExprId, entry.Fits → Json.Keeps .whole entry.toJson
  | value _ _, fit =>
      ⟨rfl, Member.format.keeps trivial, ⟨rfl, word.keeps (fit .value), trivial⟩, trivial⟩
  | nested _ entries, fit =>
      ⟨rfl, Member.format.keeps trivial,
        ⟨rfl, ⟨rfl, keeps_toJsonAll entries fit.entries []⟩, trivial⟩, trivial⟩

theorem keeps_toJsonAll : ∀ (entries : List (Initializer ExprId)), (∀ entry ∈ entries, Fits entry) →
    ∀ before, Json.KeepsAll .whole before (toJsonAll entries)
  | [], _, _ => trivial
  | entry :: rest, fits, _ =>
      ⟨keeps_toJson entry (fits entry List.mem_cons_self),
        keeps_toJsonAll rest (fun other member => fits other (List.mem_cons_of_mem _ member)) _⟩

end

/-- An initializer is read back as it was written, unless it nests deeper than the reader goes. -/
theorem reads_ofJsonTo : ∀ {limit : Nat}, limit ≤ Machine.nestingLimit →
    ∀ entry : Initializer ExprId, entry.Fits → entry.toJson.depth ≤ limit →
    ofJsonTo limit entry.toJson = .ok entry
  | 0, _, entry, _, shallow => by
      cases entry <;> exact absurd shallow (Nat.not_succ_le_zero _)
  | limit + 1, within, value member expr, fit, shallow => by
      refine Json.bind_ok rfl ?_
      refine Json.bind_ok
        (Member.format.required "member" rfl trivial (Nat.le_trans shallow within)) ?_
      exact Json.bind_ok rfl <| Json.bind_ok (word.reads (fit .value) (Nat.zero_le _)) rfl
  | limit + 1, within, nested member entries, fit, shallow => by
      refine Json.bind_ok rfl ?_
      refine Json.bind_ok
        (Member.format.required "member" rfl trivial (Nat.le_trans shallow within)) ?_
      simp only [toJson, toJsonAll_eq_map, Json.depth, Json.depthFields] at shallow
      have inner : (toJsonAll entries).mapM (ofJsonTo limit) = .ok entries := by
        rw [toJsonAll_eq_map]
        refine Format.mapM_encode fun entry listed => ?_
        refine reads_ofJsonTo (Nat.le_of_succ_le within) entry (fit.entries entry listed) ?_
        have inside := Json.depth_le_depthAll (List.mem_map_of_mem (f := toJson) listed)
        omega
      exact Json.bind_ok rfl <| Json.bind_ok inner rfl

/-- Whatever the reader makes an initializer of, its ids fit. -/
theorem assures_ofJsonTo : ∀ (limit : Nat) (value : Json), Assures (ofJsonTo limit value) Fits
  | 0, _ => .misfit
  | limit + 1, json => by
      refine .bind .any fun record _ => .bind .any fun member _ => .bind .any fun choice _ => ?_
      split
      · refine .bind (word.assures _) fun expr fit => .pure fun _ holds => ?_
        cases holds
        exact fit
      · rename_i content
        have inner : Assures (content.asList (ofJsonTo limit)) fun entries =>
            ∀ entry ∈ entries, Fits entry := by
          cases content with
          | array items => exact Format.assures_mapM (assures_ofJsonTo limit) items
          | _ => exact .misfit
        refine .bind inner fun entries fits => .pure fun _ holds => ?_
        cases holds with
        | nested listed inside => exact fits _ listed inside
      · exact .misfit

theorem format : Format .whole toJson ofJson Fits where
  isPresent entry := by cases entry <;> exact nofun
  keeps fit := keeps_toJson _ fit
  reads fit shallow := reads_ofJsonTo (Nat.le_refl _) _ fit shallow
  assures := assures_ofJsonTo _

end Initializer

namespace LambdaBody

/-- The value or the code is a number of 32 bits. -/
def Fits : LambdaBody ExprId StmtId → Prop
  | expr value => IsWord value
  | block code => IsWord code

theorem format : Format .whole toJson ofJson Fits where
  isPresent body := by cases body <;> exact nofun
  keeps {body} fit := by cases body <;> exact ⟨rfl, word.keeps fit, trivial⟩
  reads {body} fit _ := by
    cases body <;> exact Json.bind_ok rfl <| Json.bind_ok (word.reads fit (Nat.zero_le _)) rfl
  assures value := by
    refine .bind .any fun choice _ => ?_
    split
    · exact .bind (word.assures _) fun value fit => .pure fit
    · exact .bind (word.assures _) fun code fit => .pure fit
    · exact .misfit

end LambdaBody

namespace ExprKind

/-- The stored numbers have 32 bits. -/
def Fits (kind : ExprKind LocalId ExprId StmtId) : Prop :=
  ∀ ⦃reference⦄, kind.Stores reference → IsWord reference.number

theorem Fits.lambdaBody {parameters : List LocalId} {body : LambdaBody ExprId StmtId}
    (fit : Fits (.lambda parameters body)) : body.Fits := by
  cases body with
  | expr value => exact fit .lambdaValue
  | block code => exact fit .lambdaCode

theorem Fits.receiver {receiver? : Option ExprId} {member : Member}
    (fit : Fits (.member receiver? member)) : ∀ receiver ∈ receiver?, IsWord receiver := by
  rintro receiver ⟨⟩
  exact fit .memberReceiver

theorem Fits.callReceiver {receiver? : Option ExprId} {method : Signature}
    {arguments : List (Argument ExprId)} (fit : Fits (.call receiver? method arguments)) :
    ∀ receiver ∈ receiver?, IsWord receiver := by
  rintro receiver ⟨⟩
  exact fit .callReceiver

end ExprKind

namespace ArenaExpr

/-- No expression is written as null, so none reads as missing. -/
theorem isPresent_kind (kind : ExprKind LocalId ExprId StmtId) : kindToJson kind ≠ .null := by
  cases kind <;> exact nofun

/-- The text of an expression keeps all that a reader needs of it. -/
theorem keeps_kind {kind : ExprKind LocalId ExprId StmtId} (fit : kind.Fits) :
    Json.Keeps .whole (kindToJson kind) := by
  cases kind with
  | read source => exact ⟨rfl, rfl, word.keeps (fit .source), trivial⟩
  | this => exact ⟨rfl, rfl, trivial⟩
  | literal value => exact ⟨rfl, rfl, Literal.format.keeps trivial, trivial⟩
  | defaultValue => exact ⟨rfl, rfl, trivial⟩
  | cast operand => exact ⟨rfl, rfl, word.keeps (fit .castOperand), trivial⟩
  | member receiver? member =>
      exact ⟨rfl, rfl, word.keeps_optional rfl fit.receiver, Member.format.keeps trivial, trivial⟩
  | index receiver position =>
      exact ⟨rfl, rfl, word.keeps (fit .indexReceiver), word.keeps (fit .indexPosition), trivial⟩
  | call receiver? method arguments =>
      exact ⟨rfl, rfl, word.keeps_optional rfl fit.callReceiver, Signature.format.keeps trivial,
        Argument.format.wholeList.keeps fun _ listed => fit (.callArgument listed), trivial⟩
  | create constructor? arguments initializers =>
      exact ⟨rfl, rfl, Signature.format.keeps_optional rfl fun _ _ => trivial,
        Argument.format.wholeList.keeps fun _ listed => fit (.createArgument listed),
        Initializer.format.wholeList.keeps fun _ listed _ inside =>
          fit (.createEntry listed inside), trivial⟩
  | array element? items =>
      exact ⟨rfl, rfl, Ty.format.keeps_optional rfl fun _ _ => trivial,
        word.wholeList.keeps fun _ listed => fit (.item listed), trivial⟩
  | conditional condition whenTrue whenFalse =>
      exact ⟨rfl, rfl, word.keeps (fit .condition), word.keeps (fit .whenTrue),
        word.keeps (fit .whenFalse), trivial⟩
  | coalesce left right =>
      exact ⟨rfl, rfl, word.keeps (fit .coalesceLeft), word.keeps (fit .coalesceRight), trivial⟩
  | binary operator left right =>
      exact ⟨rfl, rfl, rfl, word.keeps (fit .binaryLeft), word.keeps (fit .binaryRight), trivial⟩
  | unary operator operand => exact ⟨rfl, rfl, rfl, word.keeps (fit .unaryOperand), trivial⟩
  | test operand pattern =>
      exact ⟨rfl, rfl, word.keeps (fit .testOperand), Pattern.format.keeps trivial, trivial⟩
  | suppress operand => exact ⟨rfl, rfl, word.keeps (fit .suppressOperand), trivial⟩
  | assign target value =>
      exact ⟨rfl, rfl, word.keeps (fit .target), word.keeps (fit .assigned), trivial⟩
  | lambda parameters body =>
      exact ⟨rfl, rfl,
        ⟨rfl, word.wholeList.keeps fun _ listed => fit (.parameter listed),
          LambdaBody.format.keeps fit.lambdaBody, trivial⟩, trivial⟩
  | bad children =>
      exact ⟨rfl, rfl, word.wholeList.keeps fun _ listed => fit (.badChild listed), trivial⟩

/-- An expression is read back as it was written. -/
theorem reads_kind {kind : ExprKind LocalId ExprId StmtId} (fit : kind.Fits)
    (shallow : (kindToJson kind).depth ≤ Machine.nestingLimit) :
    (kindToJson kind).asTagged kindOfFields = .ok kind := by
  cases kind with
  | read source =>
      refine Json.tagged_ok rfl <| Json.bind_ok rfl ?_
      exact Json.bind_ok (word.required "local" rfl (fit .source) shallow) rfl
  | this => exact Json.tagged_ok rfl <| Json.bind_ok rfl rfl
  | literal value =>
      refine Json.tagged_ok rfl <| Json.bind_ok rfl ?_
      exact Json.bind_ok (Literal.format.required "value" rfl trivial shallow) rfl
  | defaultValue => exact Json.tagged_ok rfl <| Json.bind_ok rfl rfl
  | cast operand =>
      refine Json.tagged_ok rfl <| Json.bind_ok rfl ?_
      exact Json.bind_ok (word.required "operand" rfl (fit .castOperand) shallow) rfl
  | member receiver? member =>
      refine Json.tagged_ok rfl <| Json.bind_ok rfl ?_
      refine Json.bind_ok (word.optional "receiver" rfl fit.receiver shallow) ?_
      exact Json.bind_ok (Member.format.required "member" rfl trivial shallow) rfl
  | index receiver position =>
      refine Json.tagged_ok rfl <| Json.bind_ok rfl ?_
      refine Json.bind_ok (word.required "receiver" rfl (fit .indexReceiver) shallow) ?_
      exact Json.bind_ok (word.required "index" rfl (fit .indexPosition) shallow) rfl
  | call receiver? method arguments =>
      refine Json.tagged_ok rfl <| Json.bind_ok rfl ?_
      refine Json.bind_ok (word.optional "receiver" rfl fit.callReceiver shallow) ?_
      refine Json.bind_ok (Signature.format.required "method" rfl trivial shallow) ?_
      exact Json.bind_ok (Argument.format.wholeList.withDefault "args" [] rfl
        (fun _ listed => fit (.callArgument listed)) shallow) rfl
  | create constructor? arguments initializers =>
      refine Json.tagged_ok rfl <| Json.bind_ok rfl ?_
      refine Json.bind_ok
        (Signature.format.optional "constructor" rfl (fun _ _ => trivial) shallow) ?_
      refine Json.bind_ok (Argument.format.wholeList.withDefault "args" [] rfl
        (fun _ listed => fit (.createArgument listed)) shallow) ?_
      exact Json.bind_ok (Initializer.format.wholeList.withDefault "initializers" [] rfl
        (fun _ listed _ inside => fit (.createEntry listed inside)) shallow) rfl
  | array element? items =>
      refine Json.tagged_ok rfl <| Json.bind_ok rfl ?_
      refine Json.bind_ok (Ty.format.optional "element" rfl (fun _ _ => trivial) shallow) ?_
      exact Json.bind_ok (word.wholeList.withDefault "initializers" [] rfl
        (fun _ listed => fit (.item listed)) shallow) rfl
  | conditional condition whenTrue whenFalse =>
      refine Json.tagged_ok rfl <| Json.bind_ok rfl ?_
      refine Json.bind_ok (word.required "condition" rfl (fit .condition) shallow) ?_
      refine Json.bind_ok (word.required "when_true" rfl (fit .whenTrue) shallow) ?_
      exact Json.bind_ok (word.required "when_false" rfl (fit .whenFalse) shallow) rfl
  | coalesce left right =>
      refine Json.tagged_ok rfl <| Json.bind_ok rfl ?_
      refine Json.bind_ok (word.required "left" rfl (fit .coalesceLeft) shallow) ?_
      exact Json.bind_ok (word.required "right" rfl (fit .coalesceRight) shallow) rfl
  | binary operator left right =>
      refine Json.tagged_ok rfl <| Json.bind_ok rfl ?_
      refine Json.bind_ok (BinaryOp.format.required "op" rfl trivial shallow) ?_
      refine Json.bind_ok (word.required "left" rfl (fit .binaryLeft) shallow) ?_
      exact Json.bind_ok (word.required "right" rfl (fit .binaryRight) shallow) rfl
  | unary operator operand =>
      refine Json.tagged_ok rfl <| Json.bind_ok rfl ?_
      refine Json.bind_ok (UnaryOp.format.required "op" rfl trivial shallow) ?_
      exact Json.bind_ok (word.required "operand" rfl (fit .unaryOperand) shallow) rfl
  | test operand pattern =>
      refine Json.tagged_ok rfl <| Json.bind_ok rfl ?_
      refine Json.bind_ok (word.required "operand" rfl (fit .testOperand) shallow) ?_
      exact Json.bind_ok (Pattern.format.required "pattern" rfl trivial shallow) rfl
  | suppress operand =>
      refine Json.tagged_ok rfl <| Json.bind_ok rfl ?_
      exact Json.bind_ok (word.required "operand" rfl (fit .suppressOperand) shallow) rfl
  | assign target value =>
      refine Json.tagged_ok rfl <| Json.bind_ok rfl ?_
      refine Json.bind_ok (word.required "target" rfl (fit .target) shallow) ?_
      exact Json.bind_ok (word.required "value" rfl (fit .assigned) shallow) rfl
  | lambda parameters body =>
      have inside : Json.depth (.object [
          ("params", .list .natural parameters), ("body", body.toJson)]) ≤ Machine.nestingLimit :=
        Json.depth_field_le "lambda" rfl shallow
      refine Json.tagged_ok rfl <| Json.bind_ok rfl <| Json.bind_ok rfl ?_
      refine Json.bind_ok (word.wholeList.withDefault "params" [] rfl
        (fun _ listed => fit (.parameter listed)) inside) ?_
      exact Json.bind_ok (LambdaBody.format.required "body" rfl fit.lambdaBody inside) rfl
  | bad children =>
      refine Json.tagged_ok rfl <| Json.bind_ok rfl ?_
      exact Json.bind_ok (word.wholeList.withDefault "children" [] rfl
        (fun _ listed => fit (.badChild listed)) shallow) rfl

theorem assures_lambdaOfJson (value : Json) : Assures (lambdaOfJson value) ExprKind.Fits := by
  refine .bind .any fun record _ => ?_
  refine .bind (word.wholeList.assures_withDefault record "params" nofun) fun parameters first => ?_
  refine .bind (LambdaBody.format.assures_required record "body") fun body second =>
    .pure fun _ stores => ?_
  cases stores with
  | parameter listed => exact first _ listed
  | lambdaValue => exact second
  | lambdaCode => exact second

/-- Whatever the reader makes an expression of, its ids fit. -/
theorem assures_kindOfFields (kind : String) (fields : List String → Json.Decoded Json.Record) :
    Assures (kindOfFields kind fields) ExprKind.Fits := by
  unfold kindOfFields
  -- The cases come in the order of the names in the decoder.
  split
  · refine .bind .any fun record _ => ?_
    refine .bind (word.assures_required record "local") fun source fit => .pure fun _ stores => ?_
    cases stores
    exact fit
  · exact .bind .any fun record _ => .pure nofun
  · exact .bind .any fun record _ => .bind .any fun value _ => .pure nofun
  · exact .bind .any fun record _ => .pure nofun
  · refine .bind .any fun record _ => ?_
    refine .bind (word.assures_required record "operand") fun operand fit => .pure fun _ stores => ?_
    cases stores
    exact fit
  · refine .bind .any fun record _ => ?_
    refine .bind (word.assures_optional record "receiver") fun receiver? fit => ?_
    refine .bind .any fun member _ => .pure fun _ stores => ?_
    cases stores
    exact fit _ rfl
  · refine .bind .any fun record _ => ?_
    refine .bind (word.assures_required record "receiver") fun receiver first => ?_
    refine .bind (word.assures_required record "index") fun position second =>
      .pure fun _ stores => ?_
    cases stores with
    | indexReceiver => exact first
    | indexPosition => exact second
  · refine .bind .any fun record _ => ?_
    refine .bind (word.assures_optional record "receiver") fun receiver? first => ?_
    refine .bind .any fun method _ => ?_
    refine .bind (Argument.format.wholeList.assures_withDefault record "args" nofun)
      fun arguments second => .pure fun _ stores => ?_
    cases stores with
    | callReceiver => exact first _ rfl
    | callArgument listed => exact second _ listed
  · refine .bind .any fun record _ => .bind .any fun constructor? _ => ?_
    refine .bind (Argument.format.wholeList.assures_withDefault record "args" nofun)
      fun arguments first => ?_
    refine .bind (Initializer.format.wholeList.assures_withDefault record "initializers" nofun)
      fun initializers second => .pure fun _ stores => ?_
    cases stores with
    | createArgument listed => exact first _ listed
    | createEntry listed inside => exact second _ listed inside
  · refine .bind .any fun record _ => .bind .any fun element? _ => ?_
    refine .bind (word.wholeList.assures_withDefault record "initializers" nofun)
      fun items fit => .pure fun _ stores => ?_
    cases stores with
    | item listed => exact fit _ listed
  · refine .bind .any fun record _ => ?_
    refine .bind (word.assures_required record "condition") fun condition first => ?_
    refine .bind (word.assures_required record "when_true") fun whenTrue second => ?_
    refine .bind (word.assures_required record "when_false") fun whenFalse third =>
      .pure fun _ stores => ?_
    cases stores with
    | condition => exact first
    | whenTrue => exact second
    | whenFalse => exact third
  · refine .bind .any fun record _ => ?_
    refine .bind (word.assures_required record "left") fun left first => ?_
    refine .bind (word.assures_required record "right") fun right second => .pure fun _ stores => ?_
    cases stores with
    | coalesceLeft => exact first
    | coalesceRight => exact second
  · refine .bind .any fun record _ => .bind .any fun operator _ => ?_
    refine .bind (word.assures_required record "left") fun left first => ?_
    refine .bind (word.assures_required record "right") fun right second => .pure fun _ stores => ?_
    cases stores with
    | binaryLeft => exact first
    | binaryRight => exact second
  · refine .bind .any fun record _ => .bind .any fun operator _ => ?_
    refine .bind (word.assures_required record "operand") fun operand fit => .pure fun _ stores => ?_
    cases stores
    exact fit
  · refine .bind .any fun record _ => ?_
    refine .bind (word.assures_required record "operand") fun operand fit => ?_
    refine .bind .any fun pattern _ => .pure fun _ stores => ?_
    cases stores
    exact fit
  · refine .bind .any fun record _ => ?_
    refine .bind (word.assures_required record "operand") fun operand fit => .pure fun _ stores => ?_
    cases stores
    exact fit
  · refine .bind .any fun record _ => ?_
    refine .bind (word.assures_required record "target") fun target first => ?_
    refine .bind (word.assures_required record "value") fun value second => .pure fun _ stores => ?_
    cases stores with
    | target => exact first
    | assigned => exact second
  · exact .bind .any fun record _ => .required assures_lambdaOfJson record "lambda"
  · refine .bind .any fun record _ => ?_
    refine .bind (word.wholeList.assures_withDefault record "children" nofun)
      fun children fit => .pure fun _ stores => ?_
    cases stores with
    | badChild listed => exact fit _ listed
  · exact .misfit

/-- Expressions have a format: they are read back as written, and what is read fits. -/
theorem kindFormat : Format .whole kindToJson (fun kind => kind.asTagged kindOfFields)
    ExprKind.Fits where
  isPresent := isPresent_kind
  keeps := keeps_kind
  reads := reads_kind
  assures := Json.assures_asTagged assures_kindOfFields

/-- All numbers in the expression have 32 bits. -/
structure Fits (expr : ArenaExpr) : Prop where
  kind : expr.kind.Fits
  span : expr.span.Fits

theorem format : Format shape toJson ofJson Fits where
  isPresent := nofun
  keeps fit :=
    ⟨rfl, kindFormat.keeps fit.kind, Ty.outerFormat.keeps_optional rfl fun _ _ => trivial,
      Span.format.keeps fit.span, trivial⟩
  reads fit shallow := by
    refine Json.bind_ok rfl <| Json.bind_ok (kindFormat.required "kind" rfl fit.kind shallow) ?_
    refine Json.bind_ok (Ty.outerFormat.optional "ty" rfl (fun _ _ => trivial) shallow) ?_
    exact Json.bind_ok (Span.format.withDefault "span" .none rfl fit.span shallow) rfl
  assures value := by
    refine .bind .any fun record _ => ?_
    refine .bind (kindFormat.assures_required record "kind") fun kind first => ?_
    refine .bind .any fun ty? _ => ?_
    refine .bind (Span.format.assures_withDefault record "span" .none) fun span second => ?_
    exact .pure ⟨first, second⟩

end ArenaExpr

namespace Arm

theorem format : Format .whole toJson ofJson fun arm => ∀ stmt ∈ arm.body, IsWord stmt where
  isPresent := nofun
  keeps fit :=
    ⟨rfl, Pattern.format.keeps_optional rfl fun _ _ => trivial, word.wholeList.keeps fit, trivial⟩
  reads fit shallow := by
    refine Json.bind_ok rfl ?_
    refine Json.bind_ok (Pattern.format.optional "pattern" rfl (fun _ _ => trivial) shallow) ?_
    exact Json.bind_ok (word.wholeList.required "body" rfl fit shallow) rfl
  assures value := by
    refine .bind .any fun record _ => .bind .any fun pattern? _ => ?_
    exact .bind (word.wholeList.assures_required record "body") fun body fit => .pure fit

end Arm

namespace StmtKind

/-- The stored numbers have 32 bits. -/
def Fits (kind : StmtKind) : Prop := ∀ ⦃reference⦄, kind.Stores reference → IsWord reference.number

theorem Fits.firstValue {target : LocalId} {value? : Option ExprId}
    (fit : Fits (.declare target value?)) : ∀ value ∈ value?, IsWord value := by
  rintro value ⟨⟩
  exact fit .firstValue

theorem Fits.elseBranch {condition : ExprId} {thenBranch : StmtId} {elseBranch? : Option StmtId}
    (fit : Fits (.ifElse condition thenBranch elseBranch?)) :
    ∀ elseBranch ∈ elseBranch?, IsWord elseBranch := by
  rintro elseBranch ⟨⟩
  exact fit .elseBranch

theorem Fits.forCondition {init : List StmtId} {condition? : Option ExprId} {updates : List ExprId}
    {body : StmtId} (fit : Fits (.forLoop init condition? updates body)) :
    ∀ condition ∈ condition?, IsWord condition := by
  rintro condition ⟨⟩
  exact fit .forCondition

theorem Fits.returned {value? : Option ExprId} (fit : Fits (.returnValue value?)) :
    ∀ value ∈ value?, IsWord value := by
  rintro value ⟨⟩
  exact fit .returned

theorem Fits.thrown {value? : Option ExprId} (fit : Fits (.throwValue value?)) :
    ∀ value ∈ value?, IsWord value := by
  rintro value ⟨⟩
  exact fit .thrown

end StmtKind

namespace Statement

theorem isPresent_kind (kind : StmtKind) : kindToJson kind ≠ .null := by
  cases kind <;> exact nofun

theorem keeps_kind {kind : StmtKind} (fit : kind.Fits) : Json.Keeps .whole (kindToJson kind) := by
  cases kind with
  | block stmts =>
      exact ⟨rfl, rfl, word.wholeList.keeps fun _ listed => fit (.inBlock listed), trivial⟩
  | declare target value? =>
      exact ⟨rfl, rfl, word.keeps (fit .declared), word.keeps_optional rfl fit.firstValue, trivial⟩
  | evaluate expr => exact ⟨rfl, rfl, word.keeps (fit .evaluated), trivial⟩
  | ifElse condition thenBranch elseBranch? =>
      exact ⟨rfl, rfl, word.keeps (fit .ifCondition), word.keeps (fit .thenBranch),
        word.keeps_optional rfl fit.elseBranch, trivial⟩
  | whileLoop condition body =>
      exact ⟨rfl, rfl, word.keeps (fit .whileCondition), word.keeps (fit .whileBody), trivial⟩
  | doWhile body condition =>
      exact ⟨rfl, rfl, word.keeps (fit .doBody), word.keeps (fit .doCondition), trivial⟩
  | forLoop init condition? updates body =>
      exact ⟨rfl, rfl, word.wholeList.keeps fun _ listed => fit (.forInit listed),
        word.keeps_optional rfl fit.forCondition,
        word.wholeList.keeps fun _ listed => fit (.forUpdate listed), word.keeps (fit .forBody),
        trivial⟩
  | switch scrutinee arms =>
      exact ⟨rfl, rfl, word.keeps (fit .scrutinee),
        Arm.format.wholeList.keeps fun _ listed _ inside => fit (.inArm listed inside), trivial⟩
  | breakOut => exact ⟨rfl, rfl, trivial⟩
  | continueLoop => exact ⟨rfl, rfl, trivial⟩
  | returnValue value? => exact ⟨rfl, rfl, word.keeps_optional rfl fit.returned, trivial⟩
  | throwValue value? => exact ⟨rfl, rfl, word.keeps_optional rfl fit.thrown, trivial⟩
  | empty => exact ⟨rfl, rfl, trivial⟩

theorem reads_kind {kind : StmtKind} (fit : kind.Fits)
    (shallow : (kindToJson kind).depth ≤ Machine.nestingLimit) :
    (kindToJson kind).asTagged kindOfFields = .ok kind := by
  cases kind with
  | block stmts =>
      refine Json.tagged_ok rfl <| Json.bind_ok rfl ?_
      exact Json.bind_ok
        (word.wholeList.required "stmts" rfl (fun _ listed => fit (.inBlock listed)) shallow) rfl
  | declare target value? =>
      refine Json.tagged_ok rfl <| Json.bind_ok rfl ?_
      refine Json.bind_ok (word.required "local" rfl (fit .declared) shallow) ?_
      exact Json.bind_ok (word.optional "init" rfl fit.firstValue shallow) rfl
  | evaluate expr =>
      refine Json.tagged_ok rfl <| Json.bind_ok rfl ?_
      exact Json.bind_ok (word.required "expr" rfl (fit .evaluated) shallow) rfl
  | ifElse condition thenBranch elseBranch? =>
      refine Json.tagged_ok rfl <| Json.bind_ok rfl ?_
      refine Json.bind_ok (word.required "condition" rfl (fit .ifCondition) shallow) ?_
      refine Json.bind_ok (word.required "then_branch" rfl (fit .thenBranch) shallow) ?_
      exact Json.bind_ok (word.optional "else_branch" rfl fit.elseBranch shallow) rfl
  | whileLoop condition body =>
      refine Json.tagged_ok rfl <| Json.bind_ok rfl ?_
      refine Json.bind_ok (word.required "condition" rfl (fit .whileCondition) shallow) ?_
      exact Json.bind_ok (word.required "body" rfl (fit .whileBody) shallow) rfl
  | doWhile body condition =>
      refine Json.tagged_ok rfl <| Json.bind_ok rfl ?_
      refine Json.bind_ok (word.required "body" rfl (fit .doBody) shallow) ?_
      exact Json.bind_ok (word.required "condition" rfl (fit .doCondition) shallow) rfl
  | forLoop init condition? updates body =>
      refine Json.tagged_ok rfl <| Json.bind_ok rfl ?_
      refine Json.bind_ok (word.wholeList.withDefault "init" [] rfl
        (fun _ listed => fit (.forInit listed)) shallow) ?_
      refine Json.bind_ok (word.optional "condition" rfl fit.forCondition shallow) ?_
      refine Json.bind_ok (word.wholeList.withDefault "update" [] rfl
        (fun _ listed => fit (.forUpdate listed)) shallow) ?_
      exact Json.bind_ok (word.required "body" rfl (fit .forBody) shallow) rfl
  | switch scrutinee arms =>
      refine Json.tagged_ok rfl <| Json.bind_ok rfl ?_
      refine Json.bind_ok (word.required "scrutinee" rfl (fit .scrutinee) shallow) ?_
      exact Json.bind_ok (Arm.format.wholeList.required "arms" rfl
        (fun _ listed _ inside => fit (.inArm listed inside)) shallow) rfl
  | breakOut => exact Json.tagged_ok rfl <| Json.bind_ok rfl rfl
  | continueLoop => exact Json.tagged_ok rfl <| Json.bind_ok rfl rfl
  | returnValue value? =>
      refine Json.tagged_ok rfl <| Json.bind_ok rfl ?_
      exact Json.bind_ok (word.optional "value" rfl fit.returned shallow) rfl
  | throwValue value? =>
      refine Json.tagged_ok rfl <| Json.bind_ok rfl ?_
      exact Json.bind_ok (word.optional "value" rfl fit.thrown shallow) rfl
  | empty => exact Json.tagged_ok rfl <| Json.bind_ok rfl rfl

theorem assures_kindOfFields (kind : String) (fields : List String → Json.Decoded Json.Record) :
    Assures (kindOfFields kind fields) StmtKind.Fits := by
  unfold kindOfFields
  -- The cases come in the order of the names in the decoder.
  split
  · refine .bind .any fun record _ => ?_
    refine .bind (word.wholeList.assures_required record "stmts") fun stmts fit =>
      .pure fun _ stores => ?_
    cases stores with
    | inBlock listed => exact fit _ listed
  · refine .bind .any fun record _ => ?_
    refine .bind (word.assures_required record "local") fun target first => ?_
    refine .bind (word.assures_optional record "init") fun value? second => .pure fun _ stores => ?_
    cases stores with
    | declared => exact first
    | firstValue => exact second _ rfl
  · refine .bind .any fun record _ => ?_
    refine .bind (word.assures_required record "expr") fun expr fit => .pure fun _ stores => ?_
    cases stores
    exact fit
  · refine .bind .any fun record _ => ?_
    refine .bind (word.assures_required record "condition") fun condition first => ?_
    refine .bind (word.assures_required record "then_branch") fun thenBranch second => ?_
    refine .bind (word.assures_optional record "else_branch") fun elseBranch? third =>
      .pure fun _ stores => ?_
    cases stores with
    | ifCondition => exact first
    | thenBranch => exact second
    | elseBranch => exact third _ rfl
  · refine .bind .any fun record _ => ?_
    refine .bind (word.assures_required record "condition") fun condition first => ?_
    refine .bind (word.assures_required record "body") fun body second => .pure fun _ stores => ?_
    cases stores with
    | whileCondition => exact first
    | whileBody => exact second
  · refine .bind .any fun record _ => ?_
    refine .bind (word.assures_required record "body") fun body first => ?_
    refine .bind (word.assures_required record "condition") fun condition second =>
      .pure fun _ stores => ?_
    cases stores with
    | doBody => exact first
    | doCondition => exact second
  · refine .bind .any fun record _ => ?_
    refine .bind (word.wholeList.assures_withDefault record "init" nofun) fun init first => ?_
    refine .bind (word.assures_optional record "condition") fun condition? second => ?_
    refine .bind (word.wholeList.assures_withDefault record "update" nofun) fun updates third => ?_
    refine .bind (word.assures_required record "body") fun body fourth => .pure fun _ stores => ?_
    cases stores with
    | forInit listed => exact first _ listed
    | forCondition => exact second _ rfl
    | forUpdate listed => exact third _ listed
    | forBody => exact fourth
  · refine .bind .any fun record _ => ?_
    refine .bind (word.assures_required record "scrutinee") fun scrutinee first => ?_
    refine .bind (Arm.format.wholeList.assures_required record "arms") fun arms second =>
      .pure fun _ stores => ?_
    cases stores with
    | scrutinee => exact first
    | inArm listed inside => exact second _ listed _ inside
  · exact .bind .any fun record _ => .pure nofun
  · exact .bind .any fun record _ => .pure nofun
  · refine .bind .any fun record _ => ?_
    refine .bind (word.assures_optional record "value") fun value? fit => .pure fun _ stores => ?_
    cases stores
    exact fit _ rfl
  · refine .bind .any fun record _ => ?_
    refine .bind (word.assures_optional record "value") fun value? fit => .pure fun _ stores => ?_
    cases stores
    exact fit _ rfl
  · exact .bind .any fun record _ => .pure nofun
  · exact .misfit

theorem kindFormat : Format .whole kindToJson (fun kind => kind.asTagged kindOfFields)
    StmtKind.Fits where
  isPresent := isPresent_kind
  keeps := keeps_kind
  reads := reads_kind
  assures := Json.assures_asTagged assures_kindOfFields

/-- All numbers in the statement have 32 bits. -/
structure Fits (stmt : Statement) : Prop where
  kind : stmt.kind.Fits
  span : stmt.span.Fits

theorem format : Format shape toJson ofJson Fits where
  isPresent := nofun
  keeps fit := ⟨rfl, kindFormat.keeps fit.kind, Span.format.keeps fit.span, trivial⟩
  reads fit shallow := by
    refine Json.bind_ok rfl <| Json.bind_ok (kindFormat.required "kind" rfl fit.kind shallow) ?_
    exact Json.bind_ok (Span.format.withDefault "span" .none rfl fit.span shallow) rfl
  assures value := by
    refine .bind .any fun record _ => ?_
    refine .bind (kindFormat.assures_required record "kind") fun kind first => ?_
    refine .bind (Span.format.assures_withDefault record "span" .none) fun span second => ?_
    exact .pure ⟨first, second⟩

end Statement

namespace Body

/-- All numbers in the body have 32 bits: those that it stores, and the lines and columns. -/
structure Fits (body : Body) : Prop where
  stores : ∀ ⦃reference⦄, body.Stores reference → IsWord reference.number
  span : ∀ span ∈ body.span?, span.Fits
  exprSpans : ∀ expr ∈ body.exprs.toList, expr.span.Fits
  stmtSpans : ∀ stmt ∈ body.stmts.toList, stmt.span.Fits

/-- The expressions of a body that fits fit. -/
theorem Fits.exprs {body : Body} (fit : body.Fits) :
    ∀ expr ∈ body.exprs.toList, ArenaExpr.Fits expr := by
  intro expr member
  obtain ⟨id, found⟩ := List.mem_iff_getElem?.mp member
  rw [Array.getElem?_toList] at found
  exact ⟨fun _ stores => fit.stores (.inside (.expr found stores)), fit.exprSpans expr member⟩

/-- The statements of a body that fits fit. -/
theorem Fits.stmts {body : Body} (fit : body.Fits) :
    ∀ stmt ∈ body.stmts.toList, Statement.Fits stmt := by
  intro stmt member
  obtain ⟨id, found⟩ := List.mem_iff_getElem?.mp member
  rw [Array.getElem?_toList] at found
  exact ⟨fun _ stores => fit.stores (.inside (.stmt found stores)), fit.stmtSpans stmt member⟩

theorem format : Format shape toJson ofJson Fits where
  isPresent := nofun
  keeps fit :=
    ⟨rfl, rfl, Span.format.keeps_optional rfl fit.span,
      Ty.outerFormat.keeps_optional rfl fun _ _ => trivial,
      (Format.word rfl).list.keeps fun _ listed => fit.stores (.parameter listed),
      Ty.outerFormat.keeps trivial, Local.format.list.keeps fun _ _ => trivial,
      ArenaExpr.format.list.keeps fit.exprs, Statement.format.list.keeps fit.stmts,
      (Format.word rfl).keeps (fit.stores .root), trivial⟩
  reads fit shallow := by
    refine Json.bind_ok rfl <| Json.bind_ok rfl ?_
    refine Json.bind_ok (Span.format.optional "span" rfl fit.span shallow) ?_
    refine Json.bind_ok
      (Ty.outerFormat.optional "this_type" rfl (fun _ _ => trivial) shallow) ?_
    refine Json.bind_ok (word.wholeList.withDefault "params" [] rfl
      (fun _ listed => fit.stores (.parameter listed)) shallow) ?_
    refine Json.bind_ok (Ty.outerFormat.required "return_type" rfl trivial shallow) ?_
    refine Json.bind_ok
      (Local.format.array.withDefault "locals" #[] rfl (fun _ _ => trivial) shallow) ?_
    refine Json.bind_ok (ArenaExpr.format.array.required "exprs" rfl fit.exprs shallow) ?_
    refine Json.bind_ok (Statement.format.array.required "stmts" rfl fit.stmts shallow) ?_
    exact Json.bind_ok (word.required "root" rfl (fit.stores .root) shallow) rfl
  assures value := by
    refine .bind .any fun record _ => .bind .any fun name _ => ?_
    refine .bind (Span.format.assures_optional record "span") fun span? spans => ?_
    refine .bind .any fun thisType? _ => ?_
    refine .bind (word.wholeList.assures_withDefault record "params" nofun)
      fun parameters first => ?_
    refine .bind .any fun returnType _ => .bind .any fun locals _ => ?_
    refine .bind (ArenaExpr.format.array.assures_required record "exprs") fun exprs second => ?_
    refine .bind (Statement.format.array.assures_required record "stmts") fun stmts third => ?_
    refine .bind (word.assures_required record "root") fun root fourth => .pure ?_
    refine ⟨fun _ stores => ?_, spans, fun expr member => (second expr member).span,
      fun stmt member => (third stmt member).span⟩
    cases stores with
    | root => exact fourth
    | parameter listed => exact first _ listed
    | inside stores =>
        cases stores with
        | expr found stores => exact (second _ (Array.mem_of_getElem? found).val).kind stores
        | stmt found stores => exact (third _ (Array.mem_of_getElem? found).val).kind stores

end Body

end Words
end NullFlow
