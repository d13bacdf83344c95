import NullFlow.Proofs.Analysis.Convergence
import NullFlow.Proofs.Analysis.Equations
import NullFlow.Proofs.Body.Methods
/-!
What the solver finds for valid bodies of which the code is flat. It reaches its solution in a
bounded number of passes, and the solution solves the equations of the graph. Both fail for code
that moves values between variables of generic types, because every such move declares the inner
positions of the variable anew.
-/

namespace NullFlow

namespace Method

variable {method : Method} {layout : Layout}

/-- A converged solution for a flat method solves the equations of its graph. -/
theorem solve_solves (flat : method.isFlat layout false = true) (classes : ClassTable)
    (options : Options) (token : CancellationToken) {solution : Solution} {final : Session}
    (solved : (method.graph classes options token).solve
      (method.context classes options token) Store.entry
      (Comparison.muted (method.session options)) = (some solution, final))
    (converged : solution.converged = true) :
    (method.graph classes options token).SolvedBy
      (method.context classes options token) Store.entry final solution := by
  have tracking : (Comparison.ofLayout layout .exact token.stops).Tracking
      (method.graph classes options token) :=
    graph_tracking flat classes options token fun lenient => by cases lenient
  have fits : layout.Fits (Comparison.muted (method.session options)).slots :=
    Comparison.fits_empty layout
  exact Comparison.solve_solves tracking Store.within_entry rfl fits solved converged

end Method

namespace Body

section Loops

/-- A class with one type argument. -/
def boxed (inner : Mark) : Ty := .named "C" [.named "object" [] inner] .plain

/-- A loop that swaps two variables by a third one. The variables agree in all but the inner
position of their types. Its round may also reset a fourth variable. -/
def swapLoop (round : List StmtId) : Body where
  name := "M"
  span? := none
  thisType? := none
  parameters := [0]
  returnType := .void
  locals := #[⟨"x", boxed .plain, false⟩, ⟨"y", boxed .nullable, false⟩, ⟨"t", boxed .plain, true⟩,
    ⟨"z", .named "object" [] .plain, false⟩]
  exprs := #[⟨.read 0, some (boxed .plain), .none⟩, ⟨.read 1, some (boxed .nullable), .none⟩,
    ⟨.read 2, some (boxed .plain), .none⟩, ⟨.read 3, some (.named "object" [] .plain), .none⟩,
    ⟨.literal .null, some (.null .plain), .none⟩, ⟨.assign 2 0, some (boxed .plain), .none⟩,
    ⟨.assign 0 1, some (boxed .plain), .none⟩, ⟨.assign 1 2, some (boxed .nullable), .none⟩,
    ⟨.assign 3 4, some (.named "object" [] .plain), .none⟩,
    ⟨.bad [], some (.value "bool" .plain), .none⟩]
  stmts := #[⟨.evaluate 5, .none⟩, ⟨.evaluate 6, .none⟩, ⟨.evaluate 7, .none⟩, ⟨.evaluate 8, .none⟩,
    ⟨.block round, .none⟩, ⟨.whileLoop 9 4, .none⟩, ⟨.block [5], .none⟩]
  root := 6

/-- The class of the variables. -/
def boxClasses : ClassTable := .ofList [⟨"C", ["T"], none⟩]

/-- A loop that calls a method of a variable and then resets the variable. -/
def resetLoop : Body where
  name := "M"
  span? := none
  thisType? := none
  parameters := [0]
  returnType := .void
  locals := #[⟨"x", .named "C" [] .plain, false⟩]
  exprs := #[⟨.read 0, some (.named "C" [] .plain), .none⟩,
    ⟨.call (some 0) ⟨"Foo", "C.Foo()", some "C", [], [], .void⟩ [], some .void, .none⟩,
    ⟨.literal .null, some (.null .plain), .none⟩, ⟨.assign 0 2, some (.named "C" [] .plain), .none⟩,
    ⟨.bad [], some (.value "bool" .plain), .none⟩]
  stmts := #[⟨.evaluate 1, .none⟩, ⟨.evaluate 3, .none⟩, ⟨.block [0, 1], .none⟩,
    ⟨.whileLoop 4 2, .none⟩, ⟨.block [3], .none⟩]
  root := 4

end Loops

section Convergence

/-- The analysis of a valid body with flat code converges if it may make as many passes as the
entries of its blocks may change. -/
theorem flat_analysis_converges (body : Body) (valid : body.validate = .ok ()) :
    ∃ method, body.method? = some method ∧
      ∀ layout, method.isFlat layout true = true → ∀ classes options,
        (method.graph classes options false).blocks.size *
          ((method.run classes options false).2.slots.size + 1) + 1 ≤ options.maxIterations →
        ∃ analysis, method.analyze classes options false = some analysis ∧
          analysis.converged = true := by
  obtain ⟨method, found⟩ := method?_exists valid
  refine ⟨method, found, fun layout flat classes options enough => ?_⟩
  exact method.analyze_converges flat classes options enough

/-- A loop that resets its variable converges. -/
theorem resetLoop_analysis_converges :
    resetLoop.validate = .ok () ∧ ∃ method, resetLoop.method? = some method ∧
      ∃ analysis, method.analyze boxClasses ⟨9, false⟩ false = some analysis ∧
        analysis.converged = true := by
  have valid : resetLoop.validate = .ok () := by decide +kernel
  obtain ⟨method, found, converges⟩ := flat_analysis_converges resetLoop valid
  have checked : (resetLoop.method?.all fun method =>
      method.isFlat ⟨fun _ => .notNull, fun _ => .notNull⟩ true &&
        decide ((method.graph boxClasses ⟨9, false⟩ false).blocks.size *
          ((method.run boxClasses ⟨9, false⟩ false).2.slots.size + 1) + 1 ≤ 9)) = true := by
    decide +kernel
  rw [found, Option.all_some, Bool.and_eq_true, decide_eq_true_eq] at checked
  exact ⟨valid, method, found, converges _ checked.1 _ _ checked.2⟩

/-- The loop that swaps two variables and resets a third one has passes enough, but its slots are
declared anew in every pass. -/
theorem swapLoop_keeps_changing :
    (swapLoop [0, 1, 2, 3]).validate = .ok () ∧ ∃ method,
      (swapLoop [0, 1, 2, 3]).method? = some method ∧
      (method.graph boxClasses ⟨40, false⟩ false).blocks.size *
        ((method.run boxClasses ⟨40, false⟩ false).2.slots.size + 1) + 1 ≤ 40 ∧
      ¬∃ analysis, method.analyze boxClasses ⟨40, false⟩ false = some analysis ∧
        analysis.converged = true := by
  have valid : (swapLoop [0, 1, 2, 3]).validate = .ok () := by decide +kernel
  obtain ⟨method, found⟩ := method?_exists valid
  have checked : ((swapLoop [0, 1, 2, 3]).method?.all fun method =>
      decide ((method.graph boxClasses ⟨40, false⟩ false).blocks.size *
          ((method.run boxClasses ⟨40, false⟩ false).2.slots.size + 1) + 1 ≤ 40) &&
        !(method.analyze boxClasses ⟨40, false⟩ false).any MethodAnalysis.converged) = true := by
    decide +kernel
  rw [found, Option.all_some, Bool.and_eq_true, decide_eq_true_eq] at checked
  refine ⟨valid, method, found, checked.1, fun ⟨analysis, answer, converged⟩ => ?_⟩
  rw [answer, Option.any_some, converged] at checked
  cases checked.2

end Convergence

section Equations

/-- If the solver converges on a valid body with flat code, then its solution solves the equations
of the graph. -/
theorem flat_solution_solves (body : Body) (valid : body.validate = .ok ()) :
    ∃ method, body.method? = some method ∧
      ∀ layout, method.isFlat layout false = true → ∀ classes options token,
        ∀ solution final, (method.graph classes options token).solve
            (method.context classes options token) Store.entry
            (Comparison.muted (method.session options)) = (some solution, final) →
          solution.converged = true →
          (method.graph classes options token).SolvedBy
            (method.context classes options token) Store.entry final solution := by
  obtain ⟨method, found⟩ := method?_exists valid
  refine ⟨method, found, fun layout flat classes options token solution final solved
    converged => ?_⟩
  exact method.solve_solves flat classes options token solved converged

/-- The entries of the loop solve its equations. -/
theorem resetLoop_solution_solves :
    resetLoop.validate = .ok () ∧ ∃ method, resetLoop.method? = some method ∧
      ∃ solution final, (method.graph boxClasses ⟨9, false⟩ false).solve
          (method.context boxClasses ⟨9, false⟩ false) Store.entry
          (Comparison.muted (method.session ⟨9, false⟩)) = (some solution, final) ∧
        solution.converged = true ∧
        (method.graph boxClasses ⟨9, false⟩ false).SolvedBy
          (method.context boxClasses ⟨9, false⟩ false) Store.entry final solution := by
  have valid : resetLoop.validate = .ok () := by decide +kernel
  obtain ⟨method, found, solves⟩ := flat_solution_solves resetLoop valid
  have checked : (resetLoop.method?.all fun method =>
      method.isFlat ⟨fun _ => .notNull, fun _ => .notNull⟩ false &&
        ((method.graph boxClasses ⟨9, false⟩ false).solve
          (method.context boxClasses ⟨9, false⟩ false) Store.entry
          (Comparison.muted (method.session ⟨9, false⟩))).1.any Solution.converged) = true := by
    decide +kernel
  rw [found, Option.all_some, Bool.and_eq_true] at checked
  obtain ⟨flat, converged⟩ := checked
  cases solved : (method.graph boxClasses ⟨9, false⟩ false).solve
      (method.context boxClasses ⟨9, false⟩ false) Store.entry
      (Comparison.muted (method.session ⟨9, false⟩)) with
  | mk solution? final =>
      rw [solved] at converged
      cases solution? with
      | none => cases converged
      | some solution =>
          exact ⟨valid, method, found, solution, final, solved, converged,
            solves _ flat _ _ _ solution final solved converged⟩

/-- The solver converges on the loop that swaps two variables. But the store that the round sends to
the head of the loop then admits null where the entry of the head does not. -/
theorem swapLoop_solution_fails :
    (swapLoop [0, 1, 2]).validate = .ok () ∧ ∃ method,
      (swapLoop [0, 1, 2]).method? = some method ∧ ∃ solution final,
        (method.graph boxClasses ⟨40, false⟩ false).solve
          (method.context boxClasses ⟨40, false⟩ false) Store.entry
          (Comparison.muted (method.session ⟨40, false⟩)) = (some solution, final) ∧
        solution.converged = true ∧
        ¬(method.graph boxClasses ⟨40, false⟩ false).SolvedBy
          (method.context boxClasses ⟨40, false⟩ false) Store.entry final solution := by
  have valid : (swapLoop [0, 1, 2]).validate = .ok () := by decide +kernel
  obtain ⟨method, found⟩ := method?_exists valid
  have checked : ((swapLoop [0, 1, 2]).method?.all fun method =>
      let answer := (method.graph boxClasses ⟨40, false⟩ false).solve
          (method.context boxClasses ⟨40, false⟩ false) Store.entry
          (Comparison.muted (method.session ⟨40, false⟩))
      answer.1.any fun solution => solution.converged &&
        ((method.graph boxClasses ⟨40, false⟩ false).successors 0).contains (1, .always) &&
        decide (1 < (method.graph boxClasses ⟨40, false⟩ false).blocks.size) &&
        !Store.equivalent answer.2.slots (solution.entry 1) (Store.joinAll answer.2.slots
          (arrivals ((method.graph boxClasses ⟨40, false⟩ false).resent
              (method.context boxClasses ⟨40, false⟩ false) solution.entry answer.2) Store.entry
            (List.range (method.graph boxClasses ⟨40, false⟩ false).blocks.size) 1))) = true := by
    decide +kernel
  rw [found, Option.all_some] at checked
  obtain ⟨solution, isSolution, checked⟩ := (Option.any_eq_true _ _).mp checked
  simp only [Bool.and_eq_true, decide_eq_true_eq, List.contains_iff_mem,
    Bool.not_eq_true'] at checked
  obtain ⟨⟨⟨converged, edge⟩, inside⟩, differs⟩ := checked
  refine ⟨valid, method, found, solution, _, Prod.ext isSolution rfl, converged, fun solves => ?_⟩
  rw [solves 1 (.step .entry edge) inside] at differs
  cases differs

end Equations

end Body
end NullFlow
