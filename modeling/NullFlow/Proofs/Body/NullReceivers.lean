import NullFlow.Proofs.Body.Plainness
import NullFlow.Proofs.Body.Safety
import NullFlow.Proofs.Execution.Correspondence
import NullFlow.Proofs.Runtime.Reports
/-!
Plain bodies have no null receiver that the analysis overlooks: wherever an execution is stopped
because a receiver is null, a converged analysis reports the receiver.
-/

namespace NullFlow.Body

/-- A local that holds null is declared to hold null. -/
def Admits (body : Body) (memory : Memory) : Prop :=
  ∀ id declared, body.locals[id]? = some declared → memory.isNull id = true →
    declared.ty.declaredState = .maybeNull

/-- A variable that may be null at the start was declared so. -/
theorem Admits.declaredState {body : Body} {memory : Memory} (admits : body.Admits memory)
    {id : LocalId} (null : memory.isNull id = true) : body.declaredState id = .maybeNull := by
  rw [Body.declaredState, localVar?]
  cases found : body.locals[id]? with
  | none => rfl
  | some declared => exact admits id declared found null

/-- The analysis of a plain body has an answer. If it converged, then every receiver at which an
execution is stopped for being null has its diagnostic, whatever the open choices. -/
theorem null_receivers_reported (body : Body) (valid : body.validate = .ok ()) (plain : body.Plain) :
    ∃ method, body.method? = some method ∧ ∀ classes options, ∃ analysis,
      method.analyze classes options false = some analysis ∧
      (analysis.converged = true → ∀ memory, body.Admits memory → ∀ fuel last span,
        Memory.machine.run method.code fuel memory = .ended .stopped last →
        last.nullReceiver? = some span →
        ∃ diagnostic ∈ analysis.diagnostics, diagnostic.kind = .dereference ∧
          diagnostic.location = { span with endLine := max span.endLine span.startLine }) := by
  obtain ⟨method, found⟩ := method?_exists valid
  refine ⟨method, found, fun classes options => ?_⟩
  obtain ⟨analysis, analyzed⟩ := method.analyze_answers classes options
  refine ⟨analysis, analyzed, fun converged memory admits fuel last span stopped receiver => ?_⟩
  obtain ⟨flat, sound⟩ := plain.sound found body.memberState classes options
  obtain ⟨delay, walks⟩ := walk_of_run_stopped stopped
  obtain ⟨diagnostic, member, same⟩ := method.stop_reported flat sound analyzed converged
    (fun _ => admits.declaredState) (walks 0) receiver
  exact ⟨diagnostic, member, (Diagnostic.kind_eq_of_order same).symm,
    (Diagnostic.location_eq_of_order same).symm⟩

/-- A loop that calls its first variable, moves the second one into it and clears the second one, as
long as the second one is null. In the third round the receiver is null. -/
def drainLoop : Body where
  name := "M"
  span? := none
  thisType? := none
  parameters := [0, 1]
  returnType := .void
  locals := #[⟨"x", .named "C" [] .plain, false⟩, ⟨"y", .named "C" [] .nullable, false⟩]
  exprs := #[⟨.read 0, some (.named "C" [] .plain), .point "M.cs" 4 9⟩,
    ⟨.call (some 0) ⟨"Foo", "C.Foo()", some "C", [], [], .void⟩ [], some .void, .none⟩,
    ⟨.read 1, some (.named "C" [] .nullable), .none⟩,
    ⟨.assign 0 2, some (.named "C" [] .plain), .none⟩,
    ⟨.literal .null, some (.null .plain), .none⟩,
    ⟨.assign 2 4, some (.named "C" [] .nullable), .none⟩,
    ⟨.binary .equal 2 4, some (.value "bool" .plain), .none⟩]
  stmts := #[⟨.evaluate 1, .none⟩, ⟨.evaluate 3, .none⟩, ⟨.evaluate 5, .none⟩,
    ⟨.block [0, 1, 2], .none⟩, ⟨.doWhile 3 6, .none⟩, ⟨.block [4], .none⟩]
  root := 5

/-- The loop is plain code. -/
theorem drainLoop_plain : drainLoop.Plain where
  types := by decide
  kinds := by decide
  receivers := by
    intro receiver method arguments isCall
    obtain rfl : receiver = 0 := by simp_all [drainLoop, kinds]
    have isRead : drainLoop.kind? 0 = some (.read 0) := rfl
    exact .read isRead rfl rfl
  targets := by
    intro target value isAssign
    have assigned : target = 0 ∧ value = 2 ∨ target = 2 ∧ value = 4 := by
      simpa [drainLoop, kinds] using isAssign
    rcases assigned with ⟨rfl, rfl⟩ | ⟨rfl, rfl⟩
    · exact ⟨0, rfl⟩
    · exact ⟨1, rfl⟩
  comparisons := by
    intro operator left right isBinary _ assigns
    obtain ⟨rfl, rfl, rfl⟩ : operator = .equal ∧ left = 2 ∧ right = 4 := by
      simpa [drainLoop, kinds] using isBinary
    cases assigns with
    | here found => cases found
    | inside found isPart inner =>
        obtain rfl := Option.some.inj found
        cases isPart

/-- A null that takes three rounds to arrive is reported where it is dereferenced. -/
theorem drainLoop_null_receiver_reported :
    drainLoop.validate = .ok () ∧ drainLoop.Plain ∧ ∃ method, drainLoop.method? = some method ∧
      ∃ analysis, method.analyze boxClasses ⟨9, false⟩ false = some analysis ∧
        analysis.converged = true ∧ ∃ memory, drainLoop.Admits memory ∧
          (∃ last, Memory.machine.run method.code 3 memory = .ended .stopped last ∧
            last.nullReceiver? = some (.point "M.cs" 4 9)) ∧
          ∃ diagnostic ∈ analysis.diagnostics, diagnostic.kind = .dereference ∧
            diagnostic.location = .point "M.cs" 4 9 := by
  have valid : drainLoop.validate = .ok () := by decide +kernel
  obtain ⟨method, found, reported⟩ := null_receivers_reported drainLoop valid drainLoop_plain
  obtain ⟨analysis, analyzed, reports⟩ := reported boxClasses ⟨9, false⟩
  let memory : Memory := ⟨fun _ => false, fun _ => 0, none⟩
  have checked : (drainLoop.method?.all fun method =>
      ((method.analyze boxClasses ⟨9, false⟩ false).all fun analysis => analysis.converged) &&
      match Memory.machine.run method.code 3 memory with
      | .ended .stopped last => last.nullReceiver? = some (.point "M.cs" 4 9)
      | _ => false) = true := by
    decide +kernel
  rw [found, Option.all_some, Bool.and_eq_true, analyzed, Option.all_some] at checked
  obtain ⟨converged, checked⟩ := checked
  have admits : drainLoop.Admits memory := fun _ _ _ null => by cases null
  cases ran : Memory.machine.run method.code 3 memory with
  | running last =>
      rw [ran] at checked
      cases checked
  | ended ending last =>
      rw [ran] at checked
      cases ending with
      | stopped =>
          have receiver := of_decide_eq_true checked
          exact ⟨valid, drainLoop_plain, method, found, analysis, analyzed, converged, memory, admits,
            ⟨last, ran, receiver⟩, reports converged memory admits 3 last _ ran receiver⟩
      | _ => cases checked

end NullFlow.Body
