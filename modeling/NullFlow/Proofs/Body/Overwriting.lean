import NullFlow.Proofs.Analysis.Narrowing
import NullFlow.Proofs.Body.LeastSolutions
/-!
Locals that are assigned while a comparison or an element access is evaluated. What is tested or
dereferenced is the value that the local had before, but what follows is recorded of the slot, which
holds the new value.
-/

namespace NullFlow

/-- A local is compared with a call, or a call gives the position in it. Whatever the call does, it
decides alone what is known of the local where the two differ. Where they are equal, that stays as
the call left it exactly if the result of the call may be null or the local is not null anyway. After
the element access it stays exactly if the local is not null anyway. -/
theorem narrowing_keeps_local_iff (context : Context) (source : Variable)
    (receiver? : Option Expr) (signature : Signature) (arguments : List (Argument Expr))
    (readTy? callTy? ty? : Option Ty) (readSpan callSpan span : Span) (session : Session)
    (facts : Facts) :
    let read : Expr := .node ⟨.read source, readTy?, readSpan⟩
    let call : Expr := .node ⟨.call receiver? signature arguments, callTy?, callSpan⟩
    let afterRead := (read.meaning context).value (.reachable facts) session
    let afterCall := (call.meaning context).value afterRead.1.2 afterRead.2
    let known := afterCall.1.2.stateOf afterCall.2.slots source.id
    let equal := ((Expr.node ⟨.binary .equal read call, ty?, span⟩).meaning context).branches
      (.reachable facts) session
    let differ := ((Expr.node ⟨.binary .notEqual read call, ty?, span⟩).meaning context).branches
      (.reachable facts) session
    let element := ((Expr.node ⟨.index read call, ty?, span⟩).meaning context).value
      (.reachable facts) session
    (equal.1.whenFalse.stateOf equal.2.slots source.id = known ∧
      differ.1.whenTrue.stateOf differ.2.slots source.id = known) ∧
    (equal.1.whenTrue.stateOf equal.2.slots source.id = known ↔
      afterCall.1.1.state = .maybeNull ∨ known = .notNull) ∧
    (differ.1.whenFalse.stateOf differ.2.slots source.id = known ↔
      afterCall.1.1.state = .maybeNull ∨ known = .notNull) ∧
    (element.1.2.stateOf element.2.slots source.id = known ↔ known = .notNull) := by
  intro read call afterRead afterCall known equal differ element
  obtain ⟨slot, isPlace, sameStore, made⟩ :=
    read_value context source readTy? readSpan session facts
  obtain ⟨loose, live, keeps⟩ := call_value context receiver? signature arguments callTy? callSpan
    (show afterRead.1.2.Live from sameStore ▸ rfl) afterRead.2
  have isSlot : afterCall.2.slots.get? (.localVar source.id) = some slot := keeps.get? made
  -- Both comparisons evaluate the operands alike and differ in the order of the outcomes.
  have outcomes : compareValues (read.part context) (call.part context) afterRead.1.1 afterCall.1.1
      afterCall.1.2 = ⟨if afterCall.1.1.state.isMaybeNull then afterCall.1.2 else
        afterCall.1.2.assign (some slot) .notNull, afterCall.1.2⟩ := by
    rw [compareValues_loose rfl rfl loose, show afterRead.1.1.slot? = some slot from isPlace]
  have isEqual : equal = (compareValues (read.part context) (call.part context) afterRead.1.1
      afterCall.1.1 afterCall.1.2, afterCall.2) := rfl
  have isDiffer : differ = (⟨equal.1.whenFalse, equal.1.whenTrue⟩, afterCall.2) := rfl
  have kept := stateOf_equal_iff isSlot live afterCall.1.1.state
  obtain ⟨dereferenced, keepsPlaces⟩ := indexRule_store context ty? (read.part context)
    (call.part context) (.reachable facts) session
  have isSlotAfter : element.2.slots.get? (.localVar source.id) = some slot :=
    keepsPlaces.get? isSlot
  have ofElement : element.1.2 = afterCall.1.2.assign (some slot) .notNull := by
    rw [← isPlace]
    exact dereferenced
  rw [isDiffer, isEqual, outcomes]
  refine ⟨⟨rfl, rfl⟩, kept, kept, ?_⟩
  rw [ofElement, Store.stateOf_assign isSlotAfter live, eq_comm]

namespace Body

section Example

/-- A branch that is taken if a local equals what a call yields. The argument of the call sets the
local to null, and in the branch a method of the local is called. -/
def clearingTest : Body where
  name := "M"
  span? := none
  thisType? := none
  parameters := [0]
  returnType := .void
  locals := #[⟨"x", nullableClass, false⟩]
  exprs := #[⟨.read 0, some nullableClass, .none⟩, ⟨.read 0, some nullableClass, .none⟩, nullValue,
    ⟨.assign 1 2, some nullableClass, .none⟩,
    ⟨.call none ⟨"Take", "Take()", none, [], [⟨"value", nullableClass⟩], plainClass⟩ [⟨3, none⟩],
      some plainClass, .none⟩,
    ⟨.binary .equal 0 4, some (.value "bool" .plain), .none⟩,
    ⟨.read 0, some nullableClass, .none⟩,
    ⟨.call (some 6) ⟨"Foo", "C.Foo()", some "C", [], [], .void⟩ [], some .void, .none⟩]
  stmts := #[⟨.evaluate 7, .none⟩, ⟨.ifElse 5 0 none, .none⟩, ⟨.block [1], .none⟩]
  root := 2

/-- After the call the local may be null. Where the test succeeds it is taken to be not null, and the
method call there is not reported. -/
theorem clearingTest_hides_null :
    clearingTest.validate = .ok () ∧ ∃ method read call test,
      clearingTest.method? = some method ∧ clearingTest.forest.expr? 0 = some read ∧
      clearingTest.forest.expr? 4 = some call ∧ clearingTest.forest.expr? 5 = some test ∧
      let context := method.context plainClasses ⟨40, false⟩ false
      let afterRead := (read.meaning context).value Store.entry (method.session ⟨40, false⟩)
      let afterCall := (call.meaning context).value afterRead.1.2 afterRead.2
      let outcomes := (test.meaning context).branches Store.entry (method.session ⟨40, false⟩)
      afterCall.1.2.stateOf afterCall.2.slots 0 = .maybeNull ∧
        outcomes.1.whenTrue.stateOf outcomes.2.slots 0 = .notNull ∧
        method.analyze plainClasses ⟨40, false⟩ false = some ⟨[], none, 2, true⟩ := by
  have checked : (clearingTest.method?.any fun method => (clearingTest.forest.expr? 0).any fun read =>
      (clearingTest.forest.expr? 4).any fun call => (clearingTest.forest.expr? 5).any fun test =>
        let context := method.context plainClasses ⟨40, false⟩ false
        let afterRead := (read.meaning context).value Store.entry (method.session ⟨40, false⟩)
        let afterCall := (call.meaning context).value afterRead.1.2 afterRead.2
        let outcomes := (test.meaning context).branches Store.entry (method.session ⟨40, false⟩)
        decide (afterCall.1.2.stateOf afterCall.2.slots 0 = .maybeNull) &&
          decide (outcomes.1.whenTrue.stateOf outcomes.2.slots 0 = .notNull) &&
          decide (method.analyze plainClasses ⟨40, false⟩ false = some ⟨[], none, 2, true⟩)) =
        true := by
    decide +kernel
  obtain ⟨method, found, checked⟩ := (Option.any_eq_true _ _).mp checked
  obtain ⟨read, isRead, checked⟩ := (Option.any_eq_true _ _).mp checked
  obtain ⟨call, isCall, checked⟩ := (Option.any_eq_true _ _).mp checked
  obtain ⟨test, isTest, checked⟩ := (Option.any_eq_true _ _).mp checked
  simp only [Bool.and_eq_true, decide_eq_true_eq] at checked
  obtain ⟨⟨cleared, assumed⟩, analyzed⟩ := checked
  exact ⟨by decide +kernel, method, read, call, test, found, isRead, isCall, isTest, cleared, assumed,
    analyzed⟩

end Example

end Body
end NullFlow
