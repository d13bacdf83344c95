import NullFlow.Analysis.Rules
import NullFlow.Proofs.Code.Contents
import NullFlow.Proofs.FlowGraph.Contents
/-!
The parts of an expression. What holds of the meanings of subexpressions holds of the parts that the
rule of the expression is given.
-/

namespace NullFlow

variable {context : Context}

/-- An expression as a part of another one. -/
def Expr.part (context : Context) (expr : Expr) : Part := .mk fun _ => expr.meaning context

theorem delayAll_each (kind : Meaning → Prop) {exprs : List Expr}
    (each : ∀ expr ∈ exprs, kind (expr.part context).get) :
    ∀ part ∈ delayAll (Meaning.ofNode context) exprs, kind part.get := by
  intro part member
  rw [delayAll_eq_map] at member
  obtain ⟨expr, inExprs, rfl⟩ := List.mem_map.mp member
  exact each expr inExprs

/-- What holds of the meanings of arguments holds of the parts that are evaluated. -/
theorem delayArguments_each (kind : Meaning → Prop) {arguments : List (Argument Expr)}
    (each : ∀ expr ∈ arguments.map Argument.value, kind (expr.part context).get) :
    ∀ argument ∈ delayArguments (Meaning.ofNode context) arguments, kind argument.value.get := by
  intro part member
  rw [delayArguments_eq_map] at member
  obtain ⟨argument, inArguments, rfl⟩ := List.mem_map.mp member
  exact each _ (List.mem_map_of_mem inArguments)

mutual

theorem delayInitializer_each (kind : Meaning → Prop) : ∀ {entry : Initializer Expr},
    (∀ expr ∈ entry.values, kind (expr.part context).get) →
    ∀ part ∈ (delayInitializer (Meaning.ofNode context) entry).values, kind part.get
  | .value _ value, each => by
      intro part member
      obtain rfl := List.mem_singleton.mp member
      exact each value List.mem_cons_self
  | .nested _ _, each => delayInitializers_each kind each

/-- What holds of the meanings of initializers holds of the parts that are evaluated. -/
theorem delayInitializers_each (kind : Meaning → Prop) : ∀ {entries : List (Initializer Expr)},
    (∀ expr ∈ initializerValues entries, kind (expr.part context).get) →
    ∀ part ∈ initializerValues (delayInitializers (Meaning.ofNode context) entries), kind part.get
  | [], _ => fun _ member => by cases member
  | entry :: rest, each => by
      intro part member
      rcases List.mem_append.mp member with inEntry | inRest
      · exact delayInitializer_each kind
          (fun expr inside => each expr (List.mem_append_left _ inside)) part inEntry
      · exact delayInitializers_each kind
          (fun expr inside => each expr (List.mem_append_right _ inside)) part inRest

end

/-- The graph of code holds the meanings of the expressions of the code. -/
theorem graph_over {ofTarget : Variable → Prop} {kind : Meaning → Prop} {code : Code}
    (made : Code.MadeOf ofTarget (fun expr => kind (expr.meaning context)) code) :
    (code.graph context).Over (Simple.Over ofTarget kind) kind := by
  refine FlowGraph.ofStmt_over (fun leaf member => ?_) fun meaning member => ?_
  · rw [leaves_foldStmt] at member
    obtain ⟨simple, inCode, rfl⟩ := List.mem_map.mp member
    have ofLeaf := made.leaves simple inCode
    cases simple with
    | evaluate expr => exact ofLeaf
    | declare target value? =>
        refine ⟨ofLeaf.1, fun meaning declared => ?_⟩
        cases value? with
        | none => cases declared
        | some expr =>
            obtain rfl : _ = meaning := Option.some.inj declared
            exact ofLeaf.2 expr rfl
  · rw [exprs_foldStmt] at member
    obtain ⟨expr, inCode, rfl⟩ := List.mem_map.mp member
    exact made.exprs expr inCode

end NullFlow
