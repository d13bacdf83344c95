import NullFlow.Proofs.Analysis.Discipline.Meanings
import NullFlow.Proofs.Analysis.Framing
import NullFlow.Proofs.Body.Forests
/-!
Where findings lie. The analysis of a body reports nothing outside the ranges of the expressions of
the body.
-/

namespace NullFlow

/-- What the action records it reports in covered ranges. -/
def ReportsIn {Result : Type} (covers : Span → Prop) (action : Analysis Result) : Prop :=
  ∀ session : Session, ∀ diagnostic ∈ (action session).2.recorder.items,
    diagnostic ∈ session.recorder.items ∨ ∃ span, covers span ∧ diagnostic.location = span.shown

namespace ReportsIn

variable {covers : Span → Prop} {Result Other : Type}

theorem unreported {action : Analysis Result}
    (same : ∀ session, (action session).2.recorder.items = session.recorder.items) :
    ReportsIn covers action := fun session _ member => Or.inl (same session ▸ member)

/-- Actions that report in a range do so one after the other. -/
theorem bind {action : Analysis Result} {next : Result → Analysis Other}
    (early : ReportsIn covers action)
    (late : ∀ result, Analysis.Yields action result → ReportsIn covers (next result)) :
    ReportsIn covers (action >>= next) := by
  intro session diagnostic member
  rw [Comparison.bind_apply] at member
  rcases late _ ⟨session, rfl⟩ _ diagnostic member with before | located
  · exact early session diagnostic before
  · exact Or.inr located

/-- A finding is reported in range if its place is covered. -/
theorem emit {finding : Diagnostic} {span : Span} (lies : finding.location = span.shown)
    (covered : covers span) : ReportsIn covers (Analysis.emit finding) := by
  intro session diagnostic member
  change diagnostic ∈ (session.recorder.emit finding).items at member
  unfold Recorder.emit at member
  split at member
  · exact Or.inl member
  · rcases List.mem_append.mp member with before | isNew
    · exact Or.inl before
    · obtain rfl := List.mem_singleton.mp isNew
      exact Or.inr ⟨span, covered, lies⟩

theorem modifyReturns (change : List Returned → List Returned) :
    ReportsIn covers (Analysis.modifyReturns change) :=
  unreported fun ⟨_, _, frames, _, _⟩ => by cases frames <;> rfl

/-- Every action of the analysis reports in the ranges of the expressions that it is made of. -/
def total (context : Context) (covers : Span → Prop) : TotalDiscipline context where
  covers := covers
  Holds := ReportsIn covers
  ofPure _ := unreported fun _ => rfl
  ofBind := bind
  ofSlots := unreported fun _ => rfl
  ofOnSlots _ := unreported fun _ => rfl
  ofEmit _ := emit
  ofFrame := unreported fun _ => rfl
  ofReturns := modifyReturns
  ofMustStop := unreported fun _ => rfl
  ofMute _ := unreported fun _ => rfl
  ofPushFrame _ := unreported fun _ => rfl
  ofPopFrame := unreported fun _ => rfl
  ofCancel := unreported fun _ => rfl

end ReportsIn

/-- The expressions of the body of a lambda are known, or they are in code that is known. -/
theorem ExprKind.resolve_bodyExprs {Var Child Block Var' : Type} {var : Var → Option Var'}
    {child : Child → Option Expr} {code : Block → Option Code} {kind : ExprKind Var Child Block}
    {made : ExprKind Var' Expr Code} (resolved : kind.resolve var child code = some made) :
    ∀ inner ∈ made.bodyExprs, (∃ number, child number = some inner) ∨
      ∃ number tree, code number = some tree ∧ inner ∈ tree.allExprs := by
  cases kind with
  | lambda parameters body =>
      obtain ⟨value, isValue, same⟩ := Option.bind_eq_some_iff.mp resolved
      obtain rfl : _ = made := Option.some.inj same
      cases body with
      | expr number =>
          obtain ⟨tree, isTree, same⟩ := Option.bind_eq_some_iff.mp isValue
          obtain rfl : _ = value := Option.some.inj same
          intro inner member
          obtain rfl := List.mem_singleton.mp member
          exact Or.inl ⟨number, isTree⟩
      | block number =>
          obtain ⟨tree, isTree, same⟩ := Option.bind_eq_some_iff.mp isValue
          obtain rfl : _ = value := Option.some.inj same
          exact fun inner member => Or.inr ⟨number, tree, isTree, member⟩
  | _ =>
      simp only [ExprKind.resolve, Option.pure_def, Option.bind_eq_bind, Option.bind_eq_some_iff,
        Option.some.injEq] at resolved
      grind [ExprKind.bodyExprs]

namespace Body

/-- The range is that of an expression of the body. -/
def HasRange (body : Body) (span : Span) : Prop := ∃ expr ∈ body.exprs, expr.span = span

variable {body : Body}

/-- Every tree of the body keeps a total discipline that covers the ranges of the body. -/
theorem forest_obeys {context : Context} {total : TotalDiscipline context}
    (covered : ∀ span, body.HasRange span → total.covers span) :
    body.forest.All (fun _ => total.discipline.OfExpr)
      (Code.MadeOf (fun _ => True) total.discipline.OfExpr) := by
  refine forest_all (fun forest known id tree made => ?_) fun forest known id tree made =>
    codeOver?_madeOf (fun _ _ _ => trivial) known.exprs known.codes made
  obtain ⟨expr, kind, atId, isKind, rfl⟩ := of_exprOver? made
  refine TotalDiscipline.ofNode _ (covered _ ⟨expr, Array.mem_of_getElem? atId, rfl⟩)
    (fun child member => ?_) fun inner member => ?_
  · obtain ⟨number, -, found⟩ := ExprKind.resolve_children isKind child member
    exact known.exprs number child found
  · rcases ExprKind.resolve_bodyExprs isKind inner member with ⟨number, found⟩ | ⟨number, code, found, inCode⟩
    · exact known.exprs number inner found
    · exact (known.codes number code found).allExprs inner inCode

/-- The analysis of a body reports in the ranges of its expressions. -/
theorem analyze_located {method : Method} (found : body.method? = some method)
    {classes : ClassTable} {options : Options} {token : CancellationToken} {analysis : MethodAnalysis}
    (answer : method.analyze classes options token = some analysis)
    {diagnostic : Diagnostic} (reported : diagnostic ∈ analysis.diagnostics) :
    ∃ span, body.HasRange span ∧ diagnostic.location = span.shown := by
  let context := method.context classes options token
  have obeys : (method.code.graph context).Obeys (ReportsIn.total context body.HasRange).discipline :=
    Discipline.graph_of ((forest_obeys fun _ inside => inside).codes _ _
      (code_of_method? found).1).allExprs
  have located : ReportsIn body.HasRange ((method.code.graph context).analyze context Store.entry) :=
    TotalDiscipline.analyze obeys Store.entry
  exact (located (method.session options) diagnostic
    (Method.recorded_of_analyze answer reported)).resolve_left List.not_mem_nil

end Body

end NullFlow
